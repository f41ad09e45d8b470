import FieldMesh.Binary32
import FieldMesh.CommandLine.Arguments
import FieldMesh.CommandLine.Line
import FieldMesh.CommandLine.Outcome
import FieldMesh.CommandLine.Run
import FieldMesh.CommandLine.Value
import FieldMesh.Decimal.Reading
import FieldMesh.Decimal.Shortest
import FieldMesh.Decimal.Text
import FieldMesh.Files.Tree
import FieldMesh.Files.Watcher
import FieldMesh.Formula.Basic
import FieldMesh.Formula.CompileError
import FieldMesh.Formula.Document
import FieldMesh.Formula.Expr
import FieldMesh.Formula.Functions
import FieldMesh.Formula.Lexeme
import FieldMesh.Formula.Live
import FieldMesh.Formula.ParseError
import FieldMesh.Formula.Parser
import FieldMesh.Formula.Token
import FieldMesh.Formula.Translation
import FieldMesh.Formula.Variable
import FieldMesh.Formula.VariableTable
import FieldMesh.Json.Basic
import FieldMesh.Json.Decode
import FieldMesh.Json.Reader
import FieldMesh.Json.Token
import FieldMesh.Json.Writer
import FieldMesh.Main
import FieldMesh.Mesh.Algorithm
import FieldMesh.Mesh.Buffers
import FieldMesh.Mesh.CaseTable
import FieldMesh.Mesh.Cube
import FieldMesh.Mesh.Density
import FieldMesh.Mesh.DualContouring
import FieldMesh.Mesh.Error
import FieldMesh.Mesh.Fault
import FieldMesh.Mesh.Generation
import FieldMesh.Mesh.Lattice
import FieldMesh.Mesh.MarchingCubes
import FieldMesh.Mesh.Request
import FieldMesh.Mesh.Wavefront
import FieldMesh.Noise.Field
import FieldMesh.Noise.Lattice
import FieldMesh.Noise.Simplex
import FieldMesh.Noise.Smooth
import FieldMesh.Program.Basic
import FieldMesh.Program.Document
import FieldMesh.Program.Machine
import FieldMesh.Program.Opcode
import FieldMesh.Proofs.CommandLine.Watching
import FieldMesh.Proofs.Decimal.Shortest
import FieldMesh.Proofs.Decimal.Unsigned
import FieldMesh.Proofs.Files.Writing
import FieldMesh.Proofs.Formula.Acceptance
import FieldMesh.Proofs.Formula.CanonicalText
import FieldMesh.Proofs.Formula.Code
import FieldMesh.Proofs.Formula.Compilation
import FieldMesh.Proofs.Formula.Counterparts
import FieldMesh.Proofs.Formula.Declarations
import FieldMesh.Proofs.Formula.Dependence
import FieldMesh.Proofs.Formula.Descent
import FieldMesh.Proofs.Formula.Edits
import FieldMesh.Proofs.Formula.Emission
import FieldMesh.Proofs.Formula.Evaluation
import FieldMesh.Proofs.Formula.Grammar
import FieldMesh.Proofs.Formula.KeptTrees
import FieldMesh.Proofs.Formula.Layout
import FieldMesh.Proofs.Formula.Lookup
import FieldMesh.Proofs.Formula.Positions
import FieldMesh.Proofs.Formula.Reading
import FieldMesh.Proofs.Formula.Recompilation
import FieldMesh.Proofs.Formula.Respelling
import FieldMesh.Proofs.Formula.Retranslation
import FieldMesh.Proofs.Formula.SharedStacks
import FieldMesh.Proofs.Formula.Spelling
import FieldMesh.Proofs.Formula.Storage
import FieldMesh.Proofs.Formula.TableEdits
import FieldMesh.Proofs.Formula.ThreadedTable
import FieldMesh.Proofs.Formula.Tokens
import FieldMesh.Proofs.Formula.Translatability
import FieldMesh.Proofs.Formula.TwoSpellings
import FieldMesh.Proofs.Formula.UsedNames
import FieldMesh.Proofs.Json.Lexing
import FieldMesh.Proofs.Json.RoundTrip
import FieldMesh.Proofs.Json.Values
import FieldMesh.Proofs.Lists
import FieldMesh.Proofs.Mesh.CellCases
import FieldMesh.Proofs.Mesh.CellSurface
import FieldMesh.Proofs.Mesh.Classification
import FieldMesh.Proofs.Mesh.DualContouring
import FieldMesh.Proofs.Mesh.Emptiness
import FieldMesh.Proofs.Mesh.Generation
import FieldMesh.Proofs.Mesh.Geometry
import FieldMesh.Proofs.Mesh.InPlace
import FieldMesh.Proofs.Mesh.Indexing
import FieldMesh.Proofs.Mesh.LiveSession
import FieldMesh.Proofs.Mesh.MarchingCubes
import FieldMesh.Proofs.Mesh.Output
import FieldMesh.Proofs.Mesh.QuadRun
import FieldMesh.Proofs.Mesh.QuadSurface
import FieldMesh.Proofs.Mesh.Quads
import FieldMesh.Proofs.Mesh.Refusal
import FieldMesh.Proofs.Mesh.Reuse
import FieldMesh.Proofs.Mesh.Sampling
import FieldMesh.Proofs.Mesh.Seams
import FieldMesh.Proofs.Mesh.Smoothing
import FieldMesh.Proofs.Mesh.VertexNumbers
import FieldMesh.Proofs.Mesh.VertexSharing
import FieldMesh.Proofs.Mesh.Wavefront
import FieldMesh.Proofs.Mesh.Writing
import FieldMesh.Proofs.Program.Storage
import FieldMesh.Proofs.Program.Unbounded
import FieldMesh.Proofs.Program.Validation
import FieldMesh.Proofs.Text.ByteOrder
import FieldMesh.Proofs.Text.LetterCase
import FieldMesh.Scalar
import FieldMesh.Text.Blank
import FieldMesh.Text.CaseTable
import FieldMesh.Text.LowerCase
import FieldMesh.Vector
