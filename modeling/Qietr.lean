import Qietr.Pool.FullTree
import Qietr.Pool.Window
import Qietr.Pool.Solvency
import Qietr.Pool.Change
import Qietr.Pool.Capacity
import Qietr.Pool.Recipient
import Qietr.Trees.Agreement
import Qietr.Relayer.Deposit
import Qietr.Escrow.Runs
import Qietr.Pool.VkUpgrade
import Qietr.Sdk.Accepted
import Qietr.Sdk.Concurrent
import Qietr.Sdk.Spending
import Qietr.Indexer.Notified
import Qietr.Escrow.Timing
import Qietr.Escrow.Silence
import Qietr.Pool.FeeVault
import Qietr.Relayer.SpendGuard
import Qietr.Relayer.ReplayGuard
import Qietr.Relayer.Screening
import Qietr.Wire.Agreement
import Qietr.Indexer.Restart
import Qietr.Sdk.Encoding
import Qietr.Relayer.RateLimit
import Qietr.Sdk.Selection
import Qietr.Pool.Fees
import Qietr.Sdk.Escapes
import Qietr.Sdk.Retry
import Qietr.Indexer.ProofRuns
import Qietr.Attestor.Watcher
import Qietr.Indexer.CommitmentParam
import Qietr.Indexer.StoredRoots
import Qietr.Attestor.Filters
import Qietr.Attestor.Relay
import Qietr.Web.ConfirmTx
import Qietr.Sdk.Accounts
import Qietr.Pool.Records
import Qietr.Pool.Authority
import Qietr.Pool.Isolation
import Qietr.Indexer.NullifierStatus
import Qietr.Indexer.Writer
import Qietr.Indexer.PollStore
import Qietr.Sdk.Indexed
import Qietr.Sdk.Escrow
import Qietr.Web.Messaging
import Qietr.Web.Device
