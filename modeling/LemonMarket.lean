import LemonMarket.Lib.Guard
import LemonMarket.Lib.Division
import LemonMarket.Lib.Run
import LemonMarket.Lib.Ledger
import LemonMarket.Lib.SharePool
import LemonMarket.Lib.Window
import LemonMarket.Lib.Lots
import LemonMarket.Lib.Rows
import LemonMarket.Lib.Effect
import LemonMarket.Lib.Triple
import LemonMarket.Lib.Lockstep
import LemonMarket.Lib.History
import LemonMarket.Lib.Table
import LemonMarket.Lib.Batch
import LemonMarket.Lib.Blocks
import LemonMarket.Lib.Fill
import LemonMarket.Lib.Hex
import LemonMarket.Lib.Number
import LemonMarket.Lib.Double
import LemonMarket.Lib.JsString
import LemonMarket.Lib.NumberText
import LemonMarket.Lib.JsonTree
import LemonMarket.Lib.Latest
import LemonMarket.Lib.Backoff
import LemonMarket.Lib.Since
import LemonMarket.Lib.Crossing
import LemonMarket.Lib.Roles
import LemonMarket.Lib.Registry
import LemonMarket.Lib.WorkerPool
import LemonMarket.Lib.PromiseChain
import LemonMarket.Contracts.Erc20
import LemonMarket.Contracts.State
import LemonMarket.Contracts.Valuation
import LemonMarket.Contracts.Fees
import LemonMarket.Contracts.Vault
import LemonMarket.Contracts.Runs
import LemonMarket.Contracts.Effects
import LemonMarket.Contracts.Refinement
import LemonMarket.Contracts.Deployment
import LemonMarket.Contracts.Solvency
import LemonMarket.Contracts.Custody
import LemonMarket.Contracts.Escrow
import LemonMarket.Contracts.Authority
import LemonMarket.Contracts.Delay
import LemonMarket.Contracts.NavEpoch
import LemonMarket.Contracts.Reach
import LemonMarket.Contracts.HonestReport
import LemonMarket.Contracts.WithdrawWindow
import LemonMarket.Contracts.Rate
import LemonMarket.Contracts.EmptyVault
import LemonMarket.Contracts.HighWater
import LemonMarket.Contracts.Mark
import LemonMarket.Contracts.ManagementFee
import LemonMarket.Contracts.Rounding
import LemonMarket.Contracts.Factory
import LemonMarket.Contracts.InsuranceFund
import LemonMarket.Contracts.Platform
import LemonMarket.Contracts.Wiring
import LemonMarket.Contracts.Registry
import LemonMarket.Contracts.FundCustody
import LemonMarket.Contracts.Appointments
import LemonMarket.Core.Units
import LemonMarket.Core.Funding
import LemonMarket.Core.Adl
import LemonMarket.Registry.Routability
import LemonMarket.Registry.BasisMachine
import LemonMarket.NearMpc.Client
import LemonMarket.NearMpc.Paths
import LemonMarket.Agent.Economics
import LemonMarket.Agent.Snapshot
import LemonMarket.Agent.Policy
import LemonMarket.Agent.Offers
import LemonMarket.Agent.Decide
import LemonMarket.Agent.Worker
import LemonMarket.Agent.Report
import LemonMarket.Agent.Limits
import LemonMarket.Agent.Queue
import LemonMarket.Agent.Venue
import LemonMarket.Agent.Allocation
import LemonMarket.Agent.IdleReturn
import LemonMarket.Agent.UnwindHome
import LemonMarket.Agent.Bridge
import LemonMarket.Agent.InFlight
import LemonMarket.Agent.Buffer
import LemonMarket.Agent.Hedge
import LemonMarket.Agent.Calls
import LemonMarket.Agent.Feed
import LemonMarket.Agent.Published
import LemonMarket.Agent.References
import LemonMarket.Agent.VenueWorld
import LemonMarket.Agent.Adapter
import LemonMarket.Agent.Cadence
import LemonMarket.Agent.Convergence
import LemonMarket.Agent.Sizing
import LemonMarket.Agent.Cooldown
import LemonMarket.Agent.Act
import LemonMarket.Agent.Process
import LemonMarket.Agent.Notional
import LemonMarket.Api.Challenge
import LemonMarket.Api.MarketHedge
import LemonMarket.Api.LivePosition
import LemonMarket.Api.Explorer
import LemonMarket.Api.PublishedLinks
import LemonMarket.Api.VaultMarkets
import LemonMarket.Api.MarketWeights
import LemonMarket.Api.Cache
import LemonMarket.Api.Session
import LemonMarket.Api.VaultRecords
import LemonMarket.Pacifica.Signing
import LemonMarket.Indexer.Handlers
import LemonMarket.Indexer.Events
import LemonMarket.Indexer.Index
import LemonMarket.Indexer.RedeemQueue
import LemonMarket.Indexer.Shares
import LemonMarket.Indexer.Figures
import LemonMarket.Api.BasisBoard
import LemonMarket.Api.GasWithdraw
