import BusTub.TransitionSystem
import BusTub.BufferPool
import BusTub.BufferBookkeeping
import BusTub.BufferContents
import BusTub.UndoLog
import BusTub.MvccRuns
import BusTub.SnapshotReads
import BusTub.WriteConflicts
import BusTub.SerializableValidation
import BusTub.Aborts
import BusTub.ChainForms
import BusTub.UnseenCollection
import BusTub.KeyUniqueness
import BusTub.ArcBounds
import BusTub.ArcPolicy
import BusTub.PinnedFrames
import BusTub.LatchOrder
import BusTub.BatchContract
import BusTub.ExecutorRestarts
import BusTub.ValueComparison
import BusTub.Expressions
import BusTub.MachineIntegers
import BusTub.IntegerArithmetic
import BusTub.IntegerCasts
import BusTub.HashJoinKeys
import BusTub.HashJoinAgreement
import BusTub.RelationalJoin
import BusTub.QueryExecution
import BusTub.PlanRewriting
import BusTub.OptimizedExecution
import BusTub.HashedPlans
import BusTub.JoinExpressions
import BusTub.ColumnNames
import BusTub.AggregatePlanning
import BusTub.TableIndexes
import BusTub.IndexedTables
import BusTub.OrderedIndexScan
import BusTub.EqualityLookup
import BusTub.ReaderCourses
import BusTub.IndexJoin
import BusTub.LexicographicOrder
import BusTub.SortOrder
import BusTub.GroupFolds
import BusTub.DiskRoundTrip
import BusTub.Channel
import BusTub.DiskScheduler
import BusTub.DiskRequests
import BusTub.AtomicObject
import BusTub.DiskMemory
import BusTub.ByteRegions
import BusTub.SlottedPage
import BusTub.HeapScan
import BusTub.TupleEncoding
import BusTub.SkipList
import BusTub.SkipListLayers
import BusTub.SkipListSet
import BusTub.SkipListIntegrity
import BusTub.Catalog
import BusTub.AutoCommit
import BusTub.TreeLatches
import BusTub.SearchForest
import BusTub.BPlusTreePages
import BusTub.LeafMoves
import BusTub.BPlusTree
import BusTub.TreeSearch
import BusTub.DescentLoops
import BusTub.TreeShape
import BusTub.TreePages
import BusTub.PageAccesses
import BusTub.PageBounds
import BusTub.PageOverflow
import BusTub.NodeMoves
import BusTub.TreeContents
import BusTub.TreeGrowth
import BusTub.TreeInsert
import BusTub.LeafTombstones
import BusTub.TreeIteration
import BusTub.TreeMending
import BusTub.TreeRounds
import BusTub.TreeRemoval
import BusTub.RemovedKeys
import BusTub.TreeRuns
import BusTub.TreeReclaim
import BusTub.TreeHeight
import BusTub.WatermarkRuns
import BusTub.UndoMerging
import BusTub.DmlStatements
import BusTub.FailedStatements
import BusTub.Listing
import BusTub.ScannedStatements
import BusTub.SetUpdates
import BusTub.UpdatedKeys
import BusTub.InsertSelect
import BusTub.CrossTypeComparison
import BusTub.GenericKeys
import BusTub.CountMinSketch
import BusTub.TopK
import BusTub.MovedSketches
