import MiningPool.Library.Execution
import MiningPool.Library.History
import MiningPool.Library.Handler
import MiningPool.Library.KeyedTable
import MiningPool.Library.Windows
import MiningPool.Library.Bytes
import MiningPool.Library.Codec
import MiningPool.Library.Sha256
import MiningPool.Library.MerkleTree
import MiningPool.Library.BlockDecoder
import MiningPool.Library.FrameStream
import MiningPool.Bitcoin.Header
import MiningPool.Bitcoin.Script
import MiningPool.Bitcoin.Transaction
import MiningPool.CoinbaseSplit
import MiningPool.MerkleBranch
import MiningPool.Sv2
import MiningPool.Jobs
import MiningPool.NoiseConnection
import MiningPool.Transport
import MiningPool.Handshake.Model
import MiningPool.Handshake.Order
import MiningPool.Handshake.Completion
import MiningPool.NodeIpc
import MiningPool.Stratum.Target
import MiningPool.Stratum.CompactTarget
import MiningPool.Stratum.ChannelTarget
import MiningPool.Stratum.Coinbase
import MiningPool.Stratum.Handlers
import MiningPool.Stratum.Connection
import MiningPool.Stratum.Runs
import MiningPool.Stratum.ShareVerdict
import MiningPool.Stratum.JobLog
import MiningPool.Stratum.Notices
import MiningPool.Stratum.Offers
import MiningPool.Stratum.Replies
import MiningPool.Stratum.OpeningLimits
import MiningPool.Stratum.ShareInterval
import MiningPool.Stratum.Setup
import MiningPool.Stratum.Grammar
import MiningPool.Stratum.Acknowledged
import MiningPool.Db.Event
import MiningPool.Db.Worker
import MiningPool.Db.Accounting
import MiningPool.Db.Journal
import MiningPool.Db.ActiveMinutes
import MiningPool.Db.Difficulty
import MiningPool.Db.Hashrate
import MiningPool.Db.Lifetimes
import MiningPool.Db.Retention
import MiningPool.Pool.Model
import MiningPool.Pool.Runs
import MiningPool.Pool.Solutions
import MiningPool.Pool.Delivery
import MiningPool.Pool.SearchSpace
import MiningPool.Pool.Credit
import MiningPool.Pool.Notices
import MiningPool.Pool.Updates
import MiningPool.Pool.Rejobs
import MiningPool.Pool.Registered
import MiningPool.Pool.Calibration
import MiningPool.Pool.Records
import MiningPool.Pool.Server
import MiningPool.Pool.Isolation
import MiningPool.Pool.Backpressure
import MiningPool.Pool.Bookkeeping
import MiningPool.Pool.Payouts
import MiningPool.Pool.Conversation
import MiningPool.Pool.Transcript
