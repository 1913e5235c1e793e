import AgentC.Library.Counting
import AgentC.Library.Runs
import AgentC.Library.Bindings
import AgentC.Alloc.StepLaws
import AgentC.Alloc.ImageRoundTrip
import AgentC.Alloc.Ownership
import AgentC.Alloc.RollbackExact
import AgentC.Kanren.Scope
import AgentC.Kanren.Search
import AgentC.Kanren.MostGeneral
import AgentC.Kanren.Reification
import AgentC.Listree.JsonRoundTrip
import AgentC.Listree.StorageRuns
import AgentC.Alloc.BlobExact
import AgentC.Root1.HandoffRuns
import AgentC.Root1.Reports
import AgentC.Root1.TenureRuns
import AgentC.Root1.Grants
import AgentC.Edict.ScanProgress
import AgentC.Edict.Marshalling
import AgentC.Edict.Calls
import AgentC.Edict.InternCounts
import AgentC.Edict.InternAnswers
import AgentC.Edict.Compiler
import AgentC.Edict.ResultContract
import AgentC.Cartographer.BoxingRoundTrip
import AgentC.Cartographer.DeferredRuns
import AgentC.Tcc.JobRuns
import AgentC.Alloc.Tokens
import AgentC.Alloc.StrictReset
import AgentC.Alloc.CodecRoundTrip
import AgentC.Edict.AwaitWakes
import AgentC.Alloc.Decoding
import AgentC.Alloc.ArenaStoreLaws
import AgentC.Alloc.RevivalExact
import AgentC.Cartographer.ResolverRoundTrip
import AgentC.StaticImage.DeclarationRoundTrip
import AgentC.Markethub.HistoryLaws
import AgentC.Markethub.DeltaFeeds
import AgentC.Edict.RewriteLaws
import AgentC.Edict.IteratorLaws
import AgentC.Edict.Superposition
import AgentC.Listree.GraphRollback
import AgentC.Listree.Reclamation
import AgentC.Alloc.SinceImages
import AgentC.Listree.DictionaryLaws
import AgentC.Cursor.CoherenceLaws
import AgentC.Cursor.RemovalLaws
import AgentC.Listree.JsonConformance
import AgentC.Root1.Messages
import AgentC.Root1.SlabRegistrations
import AgentC.Root1.PublicationHistory
import AgentC.Root1.ManifestFields
import AgentC.Treesitter.StructuralDiff
import AgentC.Treesitter.KnowledgeGraphLaws
import AgentC.Listree.ListMode
import AgentC.Markethub.Staleness
import AgentC.Alloc.SlabFiles
import AgentC.Persistence.Rehydration
import AgentC.Kanren.PairLists
import AgentC.Persistence.SessionNames
import AgentC.Edict.Overlays
import AgentC.Edict.Alternatives
import AgentC.Root1.Rings
import AgentC.Listree.Traversal
import AgentC.Edict.Payloads
import AgentC.StaticImage.SlotTableSearch
import AgentC.Cursor.PinLaws
import AgentC.Persistence.SlotFiles
import AgentC.Listree.Slots
import AgentC.Edict.WorkerFrames
