import Registrar.Main
import Registrar.Node
import Registrar.Proofs.Backend.Ground
import Registrar.Proofs.Backend.Performance
import Registrar.Proofs.Backend.StoreFailures
import Registrar.Proofs.Chronicle
import Registrar.Proofs.Chronicle.History
import Registrar.Proofs.Chronicle.Moment
import Registrar.Proofs.Chronicle.Reveal
import Registrar.Proofs.Chronicle.SentOnce
import Registrar.Proofs.Chronicle.StatusRecords
import Registrar.Proofs.Fixed.Spelling
import Registrar.Proofs.Gateway.Replies
import Registrar.Proofs.Hall
import Registrar.Proofs.Hall.AddStages
import Registrar.Proofs.Hall.CallProgress
import Registrar.Proofs.Hall.ContiguousIndices
import Registrar.Proofs.Hall.IndexOrder
import Registrar.Proofs.Hall.Interleaving
import Registrar.Proofs.Hall.ItemWorkers
import Registrar.Proofs.Hall.LaneAccount
import Registrar.Proofs.Hall.PerformedCalls
import Registrar.Proofs.Hall.Places
import Registrar.Proofs.Hall.RunningFlag
import Registrar.Proofs.Hall.ServedItems
import Registrar.Proofs.Hall.SoleWorker
import Registrar.Proofs.Hall.StopSignals
import Registrar.Proofs.Hall.Turns
import Registrar.Proofs.Hall.WorkStages
import Registrar.Proofs.Hall.WorkerDismissal
import Registrar.Proofs.Item.Answer
import Registrar.Proofs.Item.Backing
import Registrar.Proofs.Item.Conduct
import Registrar.Proofs.Item.Course
import Registrar.Proofs.Item.Protocol
import Registrar.Proofs.Layout.Canonical
import Registrar.Proofs.Layout.Encodings
import Registrar.Proofs.Ledger.CommitReveal
import Registrar.Proofs.Ledger.Commitments
import Registrar.Proofs.Ledger.Journal
import Registrar.Proofs.Ledger.Submission
import Registrar.Proofs.Ledger.TransactionRecords
import Registrar.Proofs.Node.Shutdown
import Registrar.Proofs.Nonce.InStep
import Registrar.Proofs.Nonce.Override
import Registrar.Proofs.Nonce.Overtaken
import Registrar.Proofs.Nonce.Resolution
import Registrar.Proofs.Nonce.Stale
import Registrar.Proofs.Queue.AddAndWork
import Registrar.Proofs.Queue.AddedItems
import Registrar.Proofs.Queue.Tally
import Registrar.Proofs.Queue.WorkedItems
import Registrar.Proofs.Restart.CompletedItems
import Registrar.Proofs.Restart.Recovery
import Registrar.Proofs.Restart.Resumable
import Registrar.Proofs.Restart.SweptItems
import Registrar.Proofs.Restart.Trace
import Registrar.Proofs.Resume.Drain
import Registrar.Proofs.Resume.Termination
import Registrar.Proofs.Scene
import Registrar.Proofs.Scene.Completion
import Registrar.Proofs.Scene.Ticks
import Registrar.Proofs.Settings.Environment
import Registrar.Proofs.Settings.Numerals
import Registrar.Proofs.Store.Catalogue
import Registrar.Proofs.Store.Contents
import Registrar.Proofs.Store.Exchanges
import Registrar.Proofs.Store.StoredItems
