import SqlBuilder.Config.File
import SqlBuilder.JoinGraph.Joins
import SqlBuilder.Json.Value
import SqlBuilder.Proofs.Parameters
import SqlBuilder.Proofs.Rendering.Trace
import SqlBuilder.Proofs.Rendering.FirstSeen
import SqlBuilder.Proofs.JoinGraph.Invariant
import SqlBuilder.Proofs.Rendering.Placeholders
import SqlBuilder.Proofs.JoinGraph.Paths
import SqlBuilder.Proofs.JoinGraph.Joins
import SqlBuilder.Proofs.JoinGraph.Edits
import SqlBuilder.Proofs.Rendering.Merging
import SqlBuilder.Proofs.Rendering.TwoRuns
import SqlBuilder.Proofs.Rendering.Positions
import SqlBuilder.Proofs.Grouping.Meaning
import SqlBuilder.Proofs.JoinGraph.EdgeList
import SqlBuilder.Proofs.Query.Grammar
import SqlBuilder.Proofs.Query.Plan
import SqlBuilder.Proofs.Query.Growth
import SqlBuilder.Proofs.JoinGraph.PathTree
import SqlBuilder.Proofs.JoinGraph.Targets
import SqlBuilder.Proofs.Rendering.Again
import SqlBuilder.Proofs.Rendering.Aliases
import SqlBuilder.Proofs.Parameters.Merge
import SqlBuilder.Proofs.Parameters.History
import SqlBuilder.Proofs.Rendering.Contexts
import SqlBuilder.Proofs.Rendering.Chaining
import SqlBuilder.Proofs.JoinGraph.Undo
import SqlBuilder.Proofs.JoinGraph.ForeignKeys
import SqlBuilder.Proofs.Rendering.Columns
import SqlBuilder.Proofs.Text.Balanced
import SqlBuilder.Proofs.Rendering.Plain
import SqlBuilder.Proofs.Rendering.Enclosed
import SqlBuilder.Proofs.Rendering.Parentheses
import SqlBuilder.Proofs.Checking
import SqlBuilder.Proofs.Value.Identity
import SqlBuilder.Proofs.Query.BulkJoins
import SqlBuilder.Proofs.Rendering.Bodies
import SqlBuilder.Proofs.Json.ReadBack
import SqlBuilder.Proofs.Json.Decoding
import SqlBuilder.Proofs.TableEquality
import SqlBuilder.Proofs.JoinGraph.Visits
