import HashiBridge.Chain.Theorems.Solvency
import HashiBridge.Chain.Theorems.Presigs
import HashiBridge.Chain.Theorems.Pool
import HashiBridge.Chain.Theorems.Reconfig
import HashiBridge.Chain.Theorems.Governance
import HashiBridge.Node.Theorems.Commits
import HashiBridge.Node.Theorems.Commitments
import HashiBridge.Node.Theorems.Ancestors
import HashiBridge.Mpc.Theorems.Recovery
import HashiBridge.Node.Theorems.Limiters
import HashiBridge.Guardian.Theorems.LimiterRecovery
import HashiBridge.Chain.Theorems.Registry
import HashiBridge.Guardian.Theorems.CommittedTx
import HashiBridge.Node.Theorems.PackageFees
import HashiBridge.Node.Theorems.BatchSizing
import HashiBridge.Chain.Theorems.UserIndex
import HashiBridge.Core.Theorems.SigningBatch
import HashiBridge.Guardian.Theorems.SecretSharing
import HashiBridge.Mpc.Theorems.Aggregation
import HashiBridge.Mpc.Theorems.Collection
import HashiBridge.Node.Theorems.TobMirror
import HashiBridge.Node.Theorems.TxWeights
import HashiBridge.Node.StallTracker
import HashiBridge.Monitor.Theorems.GuardianCursor
import HashiBridge.Node.Theorems.SignatureCollection
import HashiBridge.Node.Theorems.Archival
import HashiBridge.Node.Theorems.Pruning
import HashiBridge.Monitor.Theorems.WithdrawalFlow
import HashiBridge.Monitor.Theorems.DepositFlow
import HashiBridge.Monitor.Theorems.PoolUpdate
import HashiBridge.Mpc.Theorems.AvidState
import HashiBridge.Node.Theorems.ArgumentChunks
import HashiBridge.Node.Theorems.BucketPruning
import HashiBridge.Node.Theorems.SignatureUnion
import HashiBridge.Guardian.Theorems.Signing
import HashiBridge.Node.Theorems.CertPruning
