import PathSelection.Main
import PathSelection.Proofs.Calibration.Range
import PathSelection.Proofs.Circuit.Order
import PathSelection.Proofs.Dataset.Scores
import PathSelection.Proofs.Generation.Ranking
import PathSelection.Proofs.Scoring.Batch
import PathSelection.Proofs.Scoring.Sentinel
import PathSelection.Proofs.Number.ReadBack
import PathSelection.Proofs.Traversal
import PathSelection.Proofs.Json.ReadBack
import PathSelection.Proofs.Json.Records
import PathSelection.Proofs.Circuit.Building
import PathSelection.Proofs.Circuit.Acceptance
import PathSelection.Proofs.Circuit.RoundTrip
import PathSelection.Proofs.Storage.Edits
import PathSelection.Proofs.Model.Prediction
import PathSelection.Proofs.Dataset.Lines
import PathSelection.Proofs.Generation.NaturalOrder
import PathSelection.Proofs.Generation.Corpus
import PathSelection.Proofs.Generation.Cache
import PathSelection.Proofs.Generation.Visits
import PathSelection.Proofs.Generation.Resumption
import PathSelection.Proofs.Generation.Stuck
import PathSelection.Proofs.Generation.Repetition
import PathSelection.Proofs.Circuit.Refusal
import PathSelection.Proofs.Circuit.Levels
import PathSelection.Proofs.Circuit.LongestChain
import PathSelection.Proofs.Circuit.Reordering
import PathSelection.Proofs.Json.Trailing
import PathSelection.Proofs.Storage.Parents
import PathSelection.Proofs.Storage.Replacing
import PathSelection.Proofs.Dataset.Appending
import PathSelection.Proofs.Generation.Labelling
import PathSelection.Proofs.Generation.Storing
import PathSelection.Proofs.Generation.Relabelling
import PathSelection.Proofs.Calibration.Content
import PathSelection.Proofs.Number.Order
import PathSelection.Proofs.Calibration.Admission
import PathSelection.Proofs.Scoring.Probability
import PathSelection.Proofs.Device.Couplers
import PathSelection.Proofs.Device.Registrations
import PathSelection.Proofs.Model.Holding
import PathSelection.Proofs.Scoring.Growth
import PathSelection.Proofs.Circuit.Chains
import PathSelection.Proofs.Circuit.ChosenChain
import PathSelection.Proofs.Calibration.Pairs
import PathSelection.Proofs.Generation.NaturalScan
import PathSelection.Proofs.Generation.Listing
import PathSelection.Proofs.Model.Unfolding
import PathSelection.Proofs.Calibration.Export
import PathSelection.Proofs.Scoring.NativeGates
import PathSelection.Proofs.Features
import PathSelection.Proofs.Scoring.Gaps
import PathSelection.Proofs.Device.Layouts
import PathSelection.Proofs.Device.Rings
import PathSelection.Proofs.Device.Labels
import PathSelection.Proofs.Number.Sum
import PathSelection.Proofs.Model.Masks
import PathSelection.Proofs.Json.Choices
import PathSelection.Proofs.Model.Saving
import PathSelection.Proofs.Circuit.Renaming
import PathSelection.Proofs.Dataset.Labels
import PathSelection.Proofs.Config.Precedence
