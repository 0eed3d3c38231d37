import ModuleGraph.FileTree
import ModuleGraph.Json.Reader
import ModuleGraph.Main
import ModuleGraph.Proofs.Route
import ModuleGraph.Proofs.Traversal
import ModuleGraph.Proofs.Trail
import ModuleGraph.Proofs.Closure
import ModuleGraph.Proofs.Chain
import ModuleGraph.Proofs.Depth
import ModuleGraph.Proofs.PathOrder
import ModuleGraph.Proofs.Planning
import ModuleGraph.Proofs.Listing
import ModuleGraph.Proofs.Inheritance
import ModuleGraph.Proofs.Accounting
import ModuleGraph.Proofs.Missing
import ModuleGraph.Proofs.Circle
import ModuleGraph.Proofs.Worklist
import ModuleGraph.Proofs.Relevance
import ModuleGraph.Proofs.Directory
import ModuleGraph.Proofs.FileTree
import ModuleGraph.Proofs.SparsePattern
import ModuleGraph.Proofs.FileCatalog
import ModuleGraph.Proofs.WrittenText
import ModuleGraph.Proofs.RoundTrip
import ModuleGraph.Proofs.Precedence
import ModuleGraph.Proofs.Containment
import ModuleGraph.Proofs.LastEntry
import ModuleGraph.Proofs.TooDeep
import ModuleGraph.Proofs.BareKey
import ModuleGraph.Proofs.Appended
import ModuleGraph.Proofs.Selecting
import ModuleGraph.Proofs.FileLines
import ModuleGraph.Proofs.Classifying
import ModuleGraph.Proofs.LineFeed
import ModuleGraph.Proofs.NormalForm
import ModuleGraph.Proofs.ReportLines
import ModuleGraph.Proofs.NumberText
import ModuleGraph.Proofs.DocumentInteger
import ModuleGraph.Proofs.LevelRange
import ModuleGraph.Proofs.PathVariable
import ModuleGraph.Proofs.ComponentOrder
import ModuleGraph.Proofs.JsonReports
import ModuleGraph.Proofs.CommandWords
