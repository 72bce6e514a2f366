import TradePulse.Core.ConsumerGroup
import TradePulse.Core.EventStream
import TradePulse.Core.Firsts
import TradePulse.Core.Mailbox
import TradePulse.Core.Numeric
import TradePulse.Core.Process
import TradePulse.Core.Prog
import TradePulse.Core.Redelivery
import TradePulse.Core.Rounding
import TradePulse.Core.Rows
import TradePulse.Core.Runs
import TradePulse.Core.Solo
import TradePulse.Core.StreamLog
import TradePulse.Core.Transactions
import TradePulse.Core.Utf8
import TradePulse.Dashboard.Provider
import TradePulse.Dashboard.RiskScreen
import TradePulse.Dashboard.UseAsync
import TradePulse.Explain.Agreement
import TradePulse.Explain.Backend
import TradePulse.Explain.Dashboard
import TradePulse.Explain.Fallback
import TradePulse.Explain.Llm
import TradePulse.Explain.Merge
import TradePulse.Explain.Movements
import TradePulse.Explain.Snapshot
import TradePulse.Explain.ZeroMetrics
import TradePulse.Feed.Current
import TradePulse.Feed.Effects
import TradePulse.Feed.InOrder
import TradePulse.Feed.Links
import TradePulse.Feed.System
import TradePulse.Feed.Wire
import TradePulse.Gateway.Broker
import TradePulse.Gateway.Clients
import TradePulse.Gateway.Order
import TradePulse.Gateway.Sse
import TradePulse.Gateway.Tailer
import TradePulse.Ledger.Accounts
import TradePulse.Ledger.Books
import TradePulse.Ledger.Cash
import TradePulse.Ledger.Decisions
import TradePulse.Ledger.Delivery
import TradePulse.Ledger.DoubleEntry
import TradePulse.Ledger.Effects
import TradePulse.Ledger.Erasure
import TradePulse.Ledger.Holdings
import TradePulse.Ledger.Limits
import TradePulse.Ledger.Phase5
import TradePulse.Ledger.Reads
import TradePulse.Ledger.Records
import TradePulse.Ledger.Relay
import TradePulse.Ledger.Replays
import TradePulse.Ledger.Repository
import TradePulse.Ledger.Retries
import TradePulse.Ledger.Schema
import TradePulse.Ledger.Serial
import TradePulse.Ledger.Service
import TradePulse.Ledger.StreamOrder
import TradePulse.Ledger.System
import TradePulse.Ledger.Traces
import TradePulse.MarketData.Synthetic
import TradePulse.Outbox.Announced
import TradePulse.Outbox.Books
import TradePulse.Outbox.Consumption
import TradePulse.Outbox.Delivery
import TradePulse.Outbox.Draining
import TradePulse.Outbox.EndToEnd
import TradePulse.Outbox.ExactlyOnce
import TradePulse.Outbox.GroupRefinement
import TradePulse.Outbox.InOrder
import TradePulse.Outbox.Ledger
import TradePulse.Outbox.Posting
import TradePulse.Outbox.StreamBus
import TradePulse.Outbox.System
import TradePulse.Pipeline.Agreement
import TradePulse.Pipeline.Valuation
import TradePulse.Poc.KillRestart
import TradePulse.Poc.Projection
import TradePulse.Poc.Store
import TradePulse.Risk.Announcements
import TradePulse.Risk.Backlog
import TradePulse.Risk.Calm
import TradePulse.Risk.Consumer
import TradePulse.Risk.Envelopes
import TradePulse.Risk.Exact
import TradePulse.Risk.ExactlyOnce
import TradePulse.Risk.Json
import TradePulse.Risk.Malformed
import TradePulse.Risk.Passes
import TradePulse.Risk.Portfolio
import TradePulse.Risk.Positions
import TradePulse.Risk.Prices
import TradePulse.Risk.Reals
import TradePulse.Risk.Redelivery
import TradePulse.Risk.Snapshots
import TradePulse.Risk.Store
import TradePulse.Risk.Tails
import TradePulse.Risk.Throttle
import TradePulse.Risk.Windows
import TradePulse.Risk.Worker
import TradePulse.Web.Answers
import TradePulse.Web.App
import TradePulse.Web.Controllers
import TradePulse.Web.Correlation
import TradePulse.Web.Security
import TradePulse.Web.Tokens
import TradePulse.Web.Trail
