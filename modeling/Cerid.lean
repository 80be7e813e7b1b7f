import Cerid.Lib.Dict
import Cerid.Lib.LastMax
import Cerid.Lib.Run
import Cerid.Lib.Timeline
import Cerid.Lib.Json
import Cerid.Lib.Text
import Cerid.Lib.Successor
import Cerid.Lib.Rounding
import Cerid.Lib.Ranking
import Cerid.Lib.Tally
import Cerid.Lib.Prog
import Cerid.Forget.Registry
import Cerid.Forget.Fold
import Cerid.Forget.Convergence
import Cerid.Forget.Refresh
import Cerid.Forget.Engine
import Cerid.Forget.Requester
import Cerid.Forget.Remote
import Cerid.Forget.Confirm
import Cerid.Forget.Receipts
import Cerid.Forget.File
import Cerid.Ingest.Identity
import Cerid.Ingest.Ownership
import Cerid.Ingest.ChunkIds
import Cerid.Ingest.Chunker
import Cerid.Versions.Document
import Cerid.Versions.History
import Cerid.Lineage.Writer
import Cerid.Lineage.Order
import Cerid.Lineage.Settle
import Cerid.Lineage.Supersede
import Cerid.Processor.Queue
import Cerid.Processor.Command
import Cerid.Processor.Recoverable
import Cerid.Processor.Transitions
import Cerid.Recovery.Pass
import Cerid.Recovery.Rollforward
import Cerid.Lifecycle.Removal
import Cerid.Sync.Revival
import Cerid.Sync.Append
import Cerid.Sync.Exchange
import Cerid.Sync.Increment
import Cerid.Sync.Deletions
import Cerid.Sync.Readd
import Cerid.Sync.Merging
import Cerid.Sync.Encryption
import Cerid.Sync.UserState
import Cerid.Guard.Idempotency
import Cerid.Guard.Breaker
import Cerid.Retrieval.Bm25
import Cerid.Retrieval.Crash
import Cerid.Retrieval.Search
import Cerid.Retrieval.Sparse
import Cerid.Retrieval.SemanticCache
import Cerid.Retrieval.Freshness
import Cerid.Retrieval.FreshRuns
import Cerid.EntityGraph.Graph
import Cerid.EntityGraph.Merge
import Cerid.EntityGraph.Fold
import Cerid.EntityGraph.Counts
import Cerid.EntityGraph.CountRuns
import Cerid.EntityGraph.Crash
import Cerid.EntityGraph.Reversal
import Cerid.Inbox.Actions
import Cerid.Inbox.Mailbox
import Cerid.Inbox.Executor
import Cerid.Inbox.Review
import Cerid.Inbox.AppleEffects
import Cerid.Inbox.GmailEffects
import Cerid.Inbox.OutlookEffects
import Cerid.Inbox.Applied
import Cerid.Inbox.Filing
import Cerid.Inbox.Attempts
import Cerid.Inbox.Undo
import Cerid.Inbox.Learn
import Cerid.Inbox.Memory
import Cerid.Sources.Cursor
import Cerid.Packs.Install
import Cerid.Packs.Owned
import Cerid.Packs.Accounted
import Cerid.Lib.Kahn
import Cerid.Workflows.Execute
import Cerid.Workflows.Live
import Cerid.Workflows.Orders
import Cerid.Wikilinks.Graph
import Cerid.Wikilinks.Home
import Cerid.Wikilinks.Landing
import Cerid.Wikilinks.Orders
import Cerid.Folders.Current
import Cerid.Lib.Chain
import Cerid.Lib.Document
import Cerid.Lib.Value
import Cerid.Audit.Log
import Cerid.Audit.Entry
import Cerid.Audit.Prepared
import Cerid.Audit.Append
import Cerid.Audit.Landing
import Cerid.Audit.Tamper
import Cerid.Audit.Stopped
import Cerid.Verification.Summary
import Cerid.Verification.Embedded
import Cerid.Verification.Retry
import Cerid.Verification.ClaimCache
import Cerid.Verification.Promotion
import Cerid.Lib.Where
import Cerid.Retrieval.Scope
import Cerid.Retrieval.Scoped
import Cerid.Retrieval.ScopeKept
import Cerid.Retrieval.ScopeRight
import Cerid.Memory.Identity
import Cerid.Memory.Rekeyed
import Cerid.Memory.Stages
import Cerid.Memory.Between
import Cerid.Memory.Rerun
import Cerid.Inbox.Asked
import Cerid.Inbox.FineCalls
import Cerid.Inbox.Harmless
import Cerid.Verification.Stream
import Cerid.Verification.StreamLoop
import Cerid.Verification.StreamEnd
import Cerid.Verification.StreamRight
import Cerid.Retrieval.ArmClauses
import Cerid.Retrieval.ArmsRight
import Cerid.EntityGraph.Clusters
import Cerid.Lib.Distinct
import Cerid.Retrieval.Context
import Cerid.Verification.Extraction
import Cerid.Lib.Greedy
import Cerid.Lib.Pieces
import Cerid.Lib.SequenceMatcher
import Cerid.Memory.Dedup
import Cerid.Verification.InlineGate
import Cerid.Workflows.Failures
import Cerid.Vault.Frontmatter
import Cerid.Vault.WriteNote
import Cerid.Lib.Groups
import Cerid.Retrieval.Dedup
import Cerid.EntityGraph.Canonical
import Cerid.Lib.Reread
import Cerid.Processor.Hash
import Cerid.Retrieval.Assembler
import Cerid.Retrieval.Rrf
import Cerid.Sync.WriteJson
import Cerid.Wikilinks.Extract
import Cerid.Wikilinks.Extracted
import Cerid.Lib.SortedSet
import Cerid.Processor.Attempts
import Cerid.Processor.Covered
import Cerid.Processor.Exhausted
import Cerid.Guard.RateLimit
import Cerid.Lib.Positions
import Cerid.Retrieval.Hype
import Cerid.Retrieval.SparseCorpus
import Cerid.Ingest.Budget
import Cerid.Ingest.Markdown
import Cerid.Retrieval.EmbeddingCache
import Cerid.Sources.Polls
import Cerid.Vault.SafePath
import Cerid.Sources.Webhook
