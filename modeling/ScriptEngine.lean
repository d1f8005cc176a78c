import ScriptEngine.Main
import ScriptEngine.Proofs.Analysis.Layout
import ScriptEngine.Proofs.Analysis.Resolution
import ScriptEngine.Proofs.Analysis.Marking
import ScriptEngine.Proofs.Code.Effect
import ScriptEngine.Proofs.Code.Trace
import ScriptEngine.Proofs.Compile.Meaning
import ScriptEngine.Proofs.Heap.Similarity
import ScriptEngine.Proofs.Run.Agreement
import ScriptEngine.Proofs.Run.Similarity
import ScriptEngine.Proofs.Grammar.Reading
import ScriptEngine.Proofs.Grammar.Fuel
import ScriptEngine.Proofs.Script.Building
import ScriptEngine.Proofs.Script.Parsing
import ScriptEngine.Proofs.Code.Hiding
import ScriptEngine.Proofs.Compile.Stability
import ScriptEngine.Proofs.Script.Semantics
import ScriptEngine.Proofs.Compile.Jumps
import ScriptEngine.Proofs.Compile.Bodies
import ScriptEngine.Proofs.Compile.Frame
import ScriptEngine.Proofs.Compile.WithObjects
import ScriptEngine.Proofs.Script.Occurrence
import ScriptEngine.Proofs.Script.Site
import ScriptEngine.Proofs.Script.Strictness
import ScriptEngine.Proofs.Analysis.Strictness
import ScriptEngine.Proofs.Analysis.Capture
import ScriptEngine.Proofs.Compile.Lookup
import ScriptEngine.Proofs.Compile.Targets
import ScriptEngine.Proofs.Compile.Errors
import ScriptEngine.Proofs.Analysis.Lexical
import ScriptEngine.Proofs.Run.Calling
import ScriptEngine.Proofs.Run.Depth
import ScriptEngine.Proofs.Code.Closed
import ScriptEngine.Proofs.Compile.Constants
import ScriptEngine.Proofs.Run.Links
import ScriptEngine.Proofs.Run.Prototypes
import ScriptEngine.Proofs.Compile.Specialization
import ScriptEngine.Proofs.Grammar.Lexeme
import ScriptEngine.Proofs.Grammar.Lexical
import ScriptEngine.Proofs.Grammar.Termination
import ScriptEngine.Proofs.Analysis.Records
import ScriptEngine.Proofs.Heap.History
import ScriptEngine.Proofs.Heap.Views
import ScriptEngine.Proofs.Heap.Arguments
import ScriptEngine.Proofs.Run.Arrays
import ScriptEngine.Proofs.Run.Enumeration
import ScriptEngine.Proofs.Run.LazyPrototype
import ScriptEngine.Proofs.Run.ClosureRecords
import ScriptEngine.Proofs.Analysis.Assignment
import ScriptEngine.Proofs.Compile.Stores
import ScriptEngine.Proofs.Compile.TypedSlots
import ScriptEngine.Proofs.Run.Construction
import ScriptEngine.Proofs.Analysis.Rejection
import ScriptEngine.Proofs.Script.Directive
import ScriptEngine.Proofs.Number.Keys
import ScriptEngine.Proofs.Number.Indices
import ScriptEngine.Proofs.Compile.Unobservable
import ScriptEngine.Proofs.Script.Escapes
import ScriptEngine.Proofs.Script.Precedence
import ScriptEngine.Proofs.Script.Ids
import ScriptEngine.Proofs.Script.Ranges
import ScriptEngine.Proofs.Run.Equality
import ScriptEngine.Proofs.Analysis.Consistency
