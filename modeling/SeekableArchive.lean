import SeekableArchive.Faults
import SeekableArchive.Journal.Trace
import SeekableArchive.Main
import SeekableArchive.Proofs.CallProtocol
import SeekableArchive.Proofs.Checksums
import SeekableArchive.Proofs.ChunkSize
import SeekableArchive.Proofs.FailedClose
import SeekableArchive.Proofs.FaultyRuns
import SeekableArchive.Proofs.HasherState
import SeekableArchive.Proofs.InputLoop
import SeekableArchive.Proofs.Lifecycle
import SeekableArchive.Proofs.Linearization
import SeekableArchive.Proofs.LogCalls
import SeekableArchive.Proofs.NeutralWrites
import SeekableArchive.Proofs.PackedReads
import SeekableArchive.Proofs.RecordPositions
import SeekableArchive.Proofs.Recording
import SeekableArchive.Proofs.RoundTrip
import SeekableArchive.Proofs.Serialization
import SeekableArchive.Proofs.Stalling
import SeekableArchive.Proofs.TableBuffer
import SeekableArchive.Proofs.Truncation
import SeekableArchive.Proofs.VerificationPositions
import SeekableArchive.Proofs.WholeStream
import SeekableArchive.Sample
import SeekableArchive.Throughput
