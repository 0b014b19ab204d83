import Cohesion.Files.Tree
import Cohesion.Main
import Cohesion.Proofs.Dendrogram.Ancestry
import Cohesion.Proofs.Clustering.Members
import Cohesion.Proofs.Weight.Order
import Cohesion.Proofs.Pairs
import Cohesion.Proofs.Names.Numbering
import Cohesion.Proofs.Clustering.Rounds
import Cohesion.Proofs.Clustering.Run
import Cohesion.Proofs.Clustering.Shape
import Cohesion.Proofs.Clustering.Cells
import Cohesion.Proofs.Clustering.Greedy
import Cohesion.Proofs.Coupling.Edges
import Cohesion.Proofs.Coupling.Restriction
import Cohesion.Proofs.Weight.Rounding
import Cohesion.Proofs.Weight.Unsigned
import Cohesion.Proofs.Coupling.Shares
import Cohesion.Proofs.Clustering.Subtree
import Cohesion.Proofs.Partition.Queue
import Cohesion.Proofs.Partition.Cover
import Cohesion.Proofs.Clustering.Locality
import Cohesion.Proofs.Partition.Locality
import Cohesion.Proofs.Partition.Refinement
import Cohesion.Proofs.Clustering.Couplings
import Cohesion.Proofs.Coupling.Counts
import Cohesion.Proofs.Weight.Magnitude
import Cohesion.Proofs.Weight.Counted
import Cohesion.Proofs.Coupling.Joining
import Cohesion.Proofs.Clustering.Lockstep
import Cohesion.Proofs.Clustering.RoundedMerges
import Cohesion.Proofs.Coupling.Sums
import Cohesion.Proofs.Clustering.Merges
import Cohesion.Proofs.Clustering.Conservation
import Cohesion.Proofs.Weight.Nonnegative
import Cohesion.Proofs.Clustering.Components
import Cohesion.Proofs.Analysis.Stages
import Cohesion.Proofs.Partition.Extremes
import Cohesion.Proofs.Names.Renaming
import Cohesion.Proofs.Weight.Rescaling
import Cohesion.Proofs.Clustering.Image
import Cohesion.Proofs.Partition.Image
import Cohesion.Proofs.Partition.Renaming
import Cohesion.Proofs.Coupling.Insertion
import Cohesion.Proofs.Coupling.Directions
import Cohesion.Proofs.Partition.Undirected
import Cohesion.Proofs.Partition.Scaling
import Cohesion.Proofs.Json.Quoted
import Cohesion.Proofs.Json.Tokens
import Cohesion.Proofs.Json.Reading
import Cohesion.Proofs.Json.CallGraphs
import Cohesion.Proofs.Settings.Validation
import Cohesion.Proofs.Files.System
import Cohesion.Proofs.Settings.Search
import Cohesion.Proofs.Session.Report
import Cohesion.Proofs.Weight.Canonical
import Cohesion.Proofs.Weight.Nearest
import Cohesion.Proofs.Decimal.Shortest
import Cohesion.Proofs.Decimal.Layout
import Cohesion.Proofs.Json.Numbers
import Cohesion.Proofs.Weight.Tens
import Cohesion.Proofs.Json.ReadBack
import Cohesion.Proofs.Json.CouplingGraphs
import Cohesion.Proofs.Coupling.Neighbours
import Cohesion.Proofs.Coupling.Unions
import Cohesion.Proofs.Partition.Levels
import Cohesion.Proofs.Decimal.Distinct
import Cohesion.Proofs.Weight.Saturation
import Cohesion.Proofs.Json.Indented
import Cohesion.Proofs.Json.Grammar
import Cohesion.Proofs.Clustering.Recovery
import Cohesion.Proofs.Report.Json
import Cohesion.Proofs.Report.Lossless
import Cohesion.Proofs.Names.ClassName
import Cohesion.Proofs.Coupling.Recordings
import Cohesion.Proofs.Coupling.LastWeights
import Cohesion.Proofs.Dendrogram.Preorder
import Cohesion.Proofs.Decimal.Characters
import Cohesion.Proofs.Files.Ancestors
import Cohesion.Proofs.Clustering.Placement
import Cohesion.Proofs.Report.Colour
import Cohesion.Proofs.Report.Table
