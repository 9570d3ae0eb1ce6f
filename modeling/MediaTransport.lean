import MediaTransport.Document.Report
import MediaTransport.Document.Transport
import MediaTransport.Engine.Stage
import MediaTransport.Packet.Pool
import MediaTransport.Proofs.Codec.RoundTrip
import MediaTransport.Proofs.Engine.Coverage
import MediaTransport.Proofs.Engine.Readers
import MediaTransport.Proofs.Pacing.Shutdown
import MediaTransport.Proofs.Pacing.Recall
import MediaTransport.Proofs.Receiver.Lifetime
import MediaTransport.Proofs.Receiver.Loop
import MediaTransport.Proofs.ReportStore.LatestBlock
import MediaTransport.Proofs.ReportStore.Notification
import MediaTransport.Proofs.Sender.FanOut
import MediaTransport.Proofs.Sender.Order
import MediaTransport.Proofs.Splice.Outcome
import MediaTransport.Proofs.Splice.Removal
import MediaTransport.Sender.Timeline
import MediaTransport.Srtp
import MediaTransport.Proofs.ReportStore.Absorption
import MediaTransport.Proofs.Engine.Replay
import MediaTransport.Proofs.Access.Bytes
import MediaTransport.Proofs.Access.Report
import MediaTransport.Proofs.Access.Compound
import MediaTransport.Proofs.Access.Engine
import MediaTransport.Proofs.Codec.Grammar
import MediaTransport.Proofs.Codec.Image
import MediaTransport.Proofs.Codec.Normalization
import MediaTransport.Proofs.Codec.Padding
import MediaTransport.Proofs.Engine.Consumption
import MediaTransport.Proofs.Codec.Truncation
import MediaTransport.Proofs.Codec.ReadReports
import MediaTransport.Proofs.Pacing.Promptness
import MediaTransport.Proofs.Engine.RoundTripTime
import MediaTransport.Proofs.Quality.Score
import MediaTransport.Proofs.Quality.VoipBlock
import MediaTransport.Proofs.Access.Region
import MediaTransport.Proofs.Codec.Splitting
import MediaTransport.Proofs.Binary64.Rounding
import MediaTransport.Proofs.Binary64.Arithmetic
import MediaTransport.Proofs.Quality.Rating
import MediaTransport.Proofs.Faults
