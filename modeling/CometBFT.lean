import CometBFT.Mediation.Submission
import CometBFT.Mediation.PassThrough
import CometBFT.Node.Exit
import CometBFT.Node.Interception
import CometBFT.Mediation.Isolation
import CometBFT.Privval.FilePV
import CometBFT.Consensus.HeightVoteSet
import CometBFT.Light.Cleanup
import CometBFT.Light.Skipping
import CometBFT.State.Pruning
import CometBFT.State.Rollback
import CometBFT.Blocksync.Leaving
import CometBFT.Blocksync.Reactor
import CometBFT.Evidence.Pool
import CometBFT.Consensus.PeerState
import CometBFT.Store.Undo
import CometBFT.P2P.Switch
import CometBFT.Types.KeyedUpdate
import CometBFT.Types.Median
import CometBFT.Types.Window
import CometBFT.Types.PriorityHash
import CometBFT.Merkle.KeyPath
import CometBFT.Merkle.Tree
import CometBFT.Mempool.Reap
