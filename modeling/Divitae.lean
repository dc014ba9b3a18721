import Divitae.AccumulatorWitness
import Divitae.BlockHashCache
import Divitae.BlockProof
import Divitae.BroadcastSignature
import Divitae.BudgetRecord
import Divitae.BudgetSelection
import Divitae.ChainVector
import Divitae.CheckBounds
import Divitae.CheckedInputs
import Divitae.CheckpointCache
import Divitae.CheckpointValues
import Divitae.ChecksumHeight
import Divitae.CoinsCache
import Divitae.CoinstakeInputs
import Divitae.CollateralProbe
import Divitae.CrashRuns
import Divitae.FeeTotal
import Divitae.FilePositions
import Divitae.ForkVerdict
import Divitae.ImmatureSpends
import Divitae.LockRequests
import Divitae.MasternodeRemoval
import Divitae.MerkleMatches
import Divitae.MessageStream
import Divitae.MintChange
import Divitae.ModifierSelection
import Divitae.NextTarget
import Divitae.NodeDraw
import Divitae.OrphanTxs
import Divitae.OrphanVotes
import Divitae.OverlappingLocks
import Divitae.PayeeTally
import Divitae.PaymentQueue
import Divitae.PoolSignatures
import Divitae.ProsperitynodeCleanUp
import Divitae.RankAgreement
import Divitae.RecordSize
import Divitae.ReindexRecords
import Divitae.RejectedVotes
import Divitae.Reprocess
import Divitae.SeenMessages
import Divitae.SporkRuns
import Divitae.StakeLeftovers
import Divitae.StakeWeight
import Divitae.SupplyRuns
import Divitae.SyncWithChain
import Divitae.TemplateOrder
import Divitae.TrackerRuns
import Divitae.TransactionPays
import Divitae.VerifyFrame
import Divitae.VoteTimes
import Divitae.VotesCounted
import Divitae.WinnerRanks
import Divitae.WinningMasternodes
