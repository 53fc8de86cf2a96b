import KuskCore.GoInt
import KuskCore.Checked
import KuskCore.StateRun
import KuskCore.Vm.Types
import KuskCore.Vm.Ops
import KuskCore.Vm.Machine
import KuskCore.Vm.StackOps
import KuskCore.Vm.StackSpec
import KuskCore.Vm.DataOps
import KuskCore.Vm.Numeric
import KuskCore.Vm.TxOps
import KuskCore.Vm.Step
import KuskCore.GreedyMatch
import KuskCore.Vm.MultiSig
import KuskCore.Vm.Exec
import KuskCore.Vm.Fuel
import KuskCore.Vm.Recover
import KuskCore.Vm.Codec
import KuskCore.Vm.Expansion
import KuskCore.Vm.Mint
import KuskCore.Standard.Programs
import KuskCore.Standard.PubKeyHash
import KuskCore.Standard.ScriptHash
import KuskCore.Standard.Spend
import KuskCore.Codec.Uvarint
import KuskCore.Encoding.Blockchain
import KuskCore.Types.Commitment
import KuskCore.Types.TxInput
import KuskCore.Types.Transaction
import KuskCore.Casper.Checkpoint
import KuskCore.Casper.Verification
import KuskCore.Casper.ApplyBlock
import KuskCore.Casper.Run
import KuskCore.Casper.Spec
import KuskCore.Casper.Votes
import KuskCore.Casper.ForkChoice
import KuskCore.Casper.Schedule
import KuskCore.Merkle.Tree
import KuskCore.Merkle.Verify
import KuskCore.Merkle.Soundness
import KuskCore.InvertedIndex
import KuskCore.Account.UtxoKeeper
import KuskCore.Account.Reservations
import KuskCore.KeyedUpdates
import KuskCore.ParentChain
import KuskCore.State.UtxoView
import KuskCore.State.ApplyInPlace
import KuskCore.Database.UtxoStore
import KuskCore.State.ContractView
import KuskCore.Database.ContractStore
import KuskCore.Protocol.TxPool
import KuskCore.Protocol.Reorganize
import KuskCore.Protocol.OrphanManage
import KuskCore.Netsync.LocateHeaders
import KuskCore.Netsync.FastSync
import KuskCore.WeightedMap
import KuskCore.Netsync.Storage
import KuskCore.Netsync.FetchBlocks
import KuskCore.BigEndian
import KuskCore.Wallet.Mnemonic
import KuskCore.BitGroups
import KuskCore.Common.Bech32
import KuskCore.Common.Address
import KuskCore.Lru
import KuskCore.Casper.CheckpointCache
import KuskCore.Crypto.Chainkd
import KuskCore.Bc.Entry
import KuskCore.Bc.MapTx
import KuskCore.Bc.Wiring
import KuskCore.Validation.Context
import KuskCore.Validation.Tx
import KuskCore.Validation.Run
import KuskCore.Validation.Gas
import KuskCore.Validation.Conservation
import KuskCore.Validation.Accounting
import KuskCore.Validation.CheckOutput
import KuskCore.WorkerPool
import KuskCore.GoMap
import KuskCore.Types.Block
import KuskCore.Validation.Block
import KuskCore.Protocol.ReorganizeTxs
import KuskCore.Netsync.BlockFetcher
import KuskCore.Proposal.BlockBuilder
