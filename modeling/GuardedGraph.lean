import GuardedGraph.Element.Json
import GuardedGraph.Geo.Containment
import GuardedGraph.Graph.Mark
import GuardedGraph.Graph.Paths
import GuardedGraph.Graph.Save
import GuardedGraph.Query.Basic
import GuardedGraph.Record.Json
import GuardedGraph.Store.Scripted
import GuardedGraph.Proofs.Contents.Ownership
import GuardedGraph.Proofs.Reading.Alike
import GuardedGraph.Proofs.Reading.Gaining
import GuardedGraph.Proofs.Writing.Refusal
import GuardedGraph.Proofs.Paths.Search
import GuardedGraph.Proofs.Paths.Exact
import GuardedGraph.Proofs.Visibility.Grammar
import GuardedGraph.Proofs.Visibility.Parentheses
import GuardedGraph.Proofs.Visibility.Spelling
import GuardedGraph.Proofs.Visibility.Exact
import GuardedGraph.Proofs.Search.Listing
import GuardedGraph.Proofs.Writing.Cascade
import GuardedGraph.Proofs.Record.Restored
import GuardedGraph.Proofs.Writing.Integrity
import GuardedGraph.Query.Making
import GuardedGraph.Proofs.Adjacency.Reads
import GuardedGraph.Proofs.Query.Stores
import GuardedGraph.Proofs.Query.Text
import GuardedGraph.Proofs.Contents.Stranding
import GuardedGraph.Proofs.Writing.Confined
import GuardedGraph.Proofs.Record.Agreement
import GuardedGraph.Proofs.Contents.Halfway
import GuardedGraph.Proofs.Contents.Orphans
import GuardedGraph.Proofs.Value.RoundTrip
import GuardedGraph.Proofs.Element.Blindness
import GuardedGraph.Proofs.Element.Entries
import GuardedGraph.Proofs.Element.Survival
import GuardedGraph.Proofs.Element.Independence
import GuardedGraph.Proofs.Writing.Identity
import GuardedGraph.Proofs.Number.Rounding
import GuardedGraph.Proofs.Value.Transitive
import GuardedGraph.Proofs.Adjacency.Hiding
import GuardedGraph.Proofs.Query.Interleaved
import GuardedGraph.Proofs.Search.Calls
import GuardedGraph.Proofs.Writing.Batching
import GuardedGraph.Proofs.Value.Integral
import GuardedGraph.Proofs.Search.Stability
import GuardedGraph.Proofs.Visibility.Positions
import GuardedGraph.Proofs.Json.Encoding
import GuardedGraph.Proofs.Record.Texts
