import PDXearch.Lib.SharedQueue
import PDXearch.Lib.Buffer
import PDXearch.Lib.ExactFloat
import PDXearch.Lib.StdSort
import PDXearch.Lib.Loops
import PDXearch.Lib.FloatRounding
import PDXearch.Lib.Staging
import PDXearch.Lib.Lanes
import PDXearch.Kernel.ScalarComputers
import PDXearch.Kernel.VectorComputers
import PDXearch.Kernel.ADSampling
import PDXearch.Kernel.Quantization
import PDXearch.Kernel.Rounding
import PDXearch.Kernel.QuantizationError
import PDXearch.Kernel.QuantizationRange
import PDXearch.Kernel.Probe
import PDXearch.Kernel.Compaction
import PDXearch.Kernel.ProbeRuns
import PDXearch.Kernel.Accumulations
import PDXearch.Kernel.ComputerLoads
import PDXearch.Kernel.ProbeAccesses
import PDXearch.Kernel.AccessRuns
import PDXearch.Kernel.Wrapping
import PDXearch.Kernel.ProbesInRange
import PDXearch.Kernel.SearchAccounts
import PDXearch.Kernel.DropRules
import PDXearch.Kernel.FinalTest
import PDXearch.Scan.ParallelScan
import PDXearch.Scan.LosslessScan
import PDXearch.Kernel.Layout
import PDXearch.Lib.Offsets
import PDXearch.Index.Build
import PDXearch.Index.Wrapper
import PDXearch.Index.FaithfulCopy
import PDXearch.Index.RowGroupSlots
import PDXearch.Index.Delivery
import PDXearch.Create.DataChunk
import PDXearch.Create.Sink
import PDXearch.Create.SetUps
import PDXearch.Create.Pipeline
import PDXearch.Create.ClusterCounts
import PDXearch.Kernel.GlobalSearch
import PDXearch.Kernel.StartRuns
import PDXearch.Kernel.Locality
import PDXearch.Kernel.QueryHistory
import PDXearch.Kernel.Batches
import PDXearch.Kernel.FullDistances
import PDXearch.Kernel.GlobalMemory
import PDXearch.Lib.HandOver
import PDXearch.Kernel.LosslessGlobal
import PDXearch.Scan.ExactMatch
import PDXearch.Kernel.FilteredSearch
import PDXearch.Kernel.MoreClusters
import PDXearch.Index.ReportedRowIds
import PDXearch.Index.Evaluator
import PDXearch.Lib.Term
import PDXearch.Optimizer.IndexExpression
import PDXearch.Lib.TopN
import PDXearch.Optimizer.Plan
import PDXearch.Optimizer.ScanOptimizer
import PDXearch.Optimizer.MergeProjections
import PDXearch.Index.IndexedRows
import PDXearch.Scan.FilteredScan
import PDXearch.Scan.ProbeIterations
import PDXearch.Scan.SinkPhase
import PDXearch.Scan.RowGroupStaging
import PDXearch.Scan.FilteredScanRuns
import PDXearch.Scan.FilteredScanResult
import PDXearch.Index.BlobCodec
import PDXearch.Index.BlobDistance
import PDXearch.Index.EncodedQueries
import PDXearch.Index.BlobRange
import PDXearch.Lib.Paging
import PDXearch.Scan.ScanSource
import PDXearch.Scan.ScanSourceRuns
import PDXearch.Kernel.GlobalAccounts
import PDXearch.Index.GlobalIndex
import PDXearch.Index.GlobalNearest
import PDXearch.Create.CreatedGlobalIndex
import PDXearch.Scan.GlobalQueries
import PDXearch.Scan.GlobalScan
import PDXearch.Index.RowDistances
import PDXearch.Scan.LosslessFilteredScan
import PDXearch.Lib.UnitVectors
import PDXearch.Create.DistanceMetric
import PDXearch.Create.IndexOptions
import PDXearch.Create.CreatedIndex
import PDXearch.Scan.IndexScan
import PDXearch.Kernel.ApproximateDistances
import PDXearch.Scan.ApproximateScan
import PDXearch.Scan.TableQueries
import PDXearch.Scan.DistanceQueries
import PDXearch.Scan.ApproximateQueries
import PDXearch.Optimizer.Optimize
