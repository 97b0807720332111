import ExperienceReplay.Delivery
import ExperienceReplay.Config.Yaml
import ExperienceReplay.Proofs.Buffer.Unwritten
import ExperienceReplay.Proofs.Buffer.Stays
import ExperienceReplay.Proofs.Delivery.Worker
import ExperienceReplay.Proofs.SegmentTree.Nodes
import ExperienceReplay.Proofs.Buffer.Batches
import ExperienceReplay.Proofs.Buffer.Draws
import ExperienceReplay.Proofs.Buffer.Shares
import ExperienceReplay.Proofs.SegmentTree.Ranges
import ExperienceReplay.Proofs.SegmentTree.Crown
import ExperienceReplay.Proofs.SegmentTree.NodeRow
import ExperienceReplay.Proofs.Buffer.Faultless
import ExperienceReplay.Proofs.SharedBuffer.Poisoning
import ExperienceReplay.Proofs.Binary32.Midpoint
import ExperienceReplay.Proofs.Decimal.Reading
import ExperienceReplay.Proofs.Decimal.Shortest
import ExperienceReplay.Proofs.Yaml.Scalar
import ExperienceReplay.Proofs.Yaml.Places
import ExperienceReplay.Proofs.Yaml.Plain
import ExperienceReplay.Proofs.Yaml.Quoted
import ExperienceReplay.Proofs.Yaml.Scanning
import ExperienceReplay.Proofs.Yaml.Lines
import ExperienceReplay.Proofs.Yaml.Nodes
import ExperienceReplay.Proofs.Yaml.Writing
import ExperienceReplay.Proofs.Yaml.Blocks
import ExperienceReplay.Proofs.Config.Layout
import ExperienceReplay.Proofs.Config.RoundTrip
import ExperienceReplay.Proofs.SegmentTree.PrefixSums
import ExperienceReplay.Proofs.Binary32.Monotone
import ExperienceReplay.Proofs.Buffer.Selection
import ExperienceReplay.Proofs.Buffer.Rescoring
import ExperienceReplay.Proofs.Annealing
import ExperienceReplay.Proofs.Buffer.Importance
import ExperienceReplay.Proofs.Buffer.TopWeight
import ExperienceReplay.Proofs.RecordRing.Acceptance
import ExperienceReplay.Proofs.Binary32.RelativeError
import ExperienceReplay.Proofs.SegmentTree.Accuracy
import ExperienceReplay.Proofs.Buffer.Accuracy
import ExperienceReplay.Proofs.Annealing.Approach
import ExperienceReplay.Proofs.Buffer.Annealing
import ExperienceReplay.Proofs.Records.Names
import ExperienceReplay.Proofs.Config.Acceptance
import ExperienceReplay.Proofs.RecordRing.Widening
import ExperienceReplay.Proofs.Buffer.Acceptance
