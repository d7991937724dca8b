import BenchmarkAi.Bff.Cursor
import BenchmarkAi.Bff.Ingestion
import BenchmarkAi.CloudWatch.Dimensions
import BenchmarkAi.Commands.Isolation
import BenchmarkAi.Commands.Engines
import BenchmarkAi.CronJob.RoundTrip
import BenchmarkAi.Downloads.Cleanup
import BenchmarkAi.Downloads.Dispatcher
import BenchmarkAi.Downloads.Leaks
import BenchmarkAi.Downloads.NodesToCancel
import BenchmarkAi.Executor.Outcome
import BenchmarkAi.Executor.Routing
import BenchmarkAi.Extractor.LogListener
import BenchmarkAi.Fetcher.Join
import BenchmarkAi.FetcherJob.Folders
import BenchmarkAi.Kafka.Shutdown
import BenchmarkAi.Locks.Theorems
import BenchmarkAi.Pusher.Agreement
import BenchmarkAi.Pusher.Client
import BenchmarkAi.Pusher.Watcher
import BenchmarkAi.SageMaker.Data
import BenchmarkAi.SageMaker.Exports
import BenchmarkAi.Transpiler.DocumentOrder
import BenchmarkAi.Transpiler.EnvMerge
import BenchmarkAi.Transpiler.LabelInsertion
import BenchmarkAi.Transpiler.Repeat
import BenchmarkAi.Transpiler.VolumeRemoval
import BenchmarkAi.Watcher.Links
import BenchmarkAi.Watcher.Priority
import BenchmarkAi.Watcher.Table
import BenchmarkAi.Watcher.Trigger
