import SchemaDecl.CommandLine.Arguments
import SchemaDecl.CommandLine.Echo
import SchemaDecl.CommandLine.Program
import SchemaDecl.CommandLine.Suggestion
import SchemaDecl.Config
import SchemaDecl.Declare
import SchemaDecl.Event
import SchemaDecl.Failure
import SchemaDecl.Files.Location
import SchemaDecl.Files.Standard
import SchemaDecl.Files.Tree
import SchemaDecl.Files.Writer
import SchemaDecl.Interface
import SchemaDecl.Json.Basic
import SchemaDecl.Json.Display
import SchemaDecl.Json.Fields
import SchemaDecl.Json.Printer
import SchemaDecl.Json.Quoted
import SchemaDecl.Json.Reader
import SchemaDecl.Main
import SchemaDecl.Name.Identifier
import SchemaDecl.Name.Pascal
import SchemaDecl.Number.Double
import SchemaDecl.Number.Notation
import SchemaDecl.Number.Shortest
import SchemaDecl.Proofs.CleanedAgain
import SchemaDecl.Proofs.CleanedTexts
import SchemaDecl.Proofs.CommandLine.TypeNames
import SchemaDecl.Proofs.DeclaredForms
import SchemaDecl.Proofs.DeclaredNames
import SchemaDecl.Proofs.DeclaredText
import SchemaDecl.Proofs.DerivedNames
import SchemaDecl.Proofs.Files.Resolution
import SchemaDecl.Proofs.Files.Writing
import SchemaDecl.Proofs.FormatterRuns
import SchemaDecl.Proofs.InterfaceNames
import SchemaDecl.Proofs.Inversion
import SchemaDecl.Proofs.Json.FieldLaws
import SchemaDecl.Proofs.Json.Literals
import SchemaDecl.Proofs.Json.Printing
import SchemaDecl.Proofs.Json.ReadQuoted
import SchemaDecl.Proofs.Json.Scalars
import SchemaDecl.Proofs.Json.Sources
import SchemaDecl.Proofs.Name.Words
import SchemaDecl.Proofs.NullKeywords
import SchemaDecl.Proofs.ObjectMembers
import SchemaDecl.Proofs.Placeholder
import SchemaDecl.Proofs.ReadKeywords
import SchemaDecl.Proofs.ReferenceNames
import SchemaDecl.Proofs.Schema.Addresses
import SchemaDecl.Proofs.Schema.Children
import SchemaDecl.Proofs.Schema.Folding
import SchemaDecl.Proofs.Schema.Idempotence
import SchemaDecl.Proofs.Schema.JoinedReferences
import SchemaDecl.Proofs.Schema.KnownNames
import SchemaDecl.Proofs.Schema.Likeness
import SchemaDecl.Proofs.Schema.Nodes
import SchemaDecl.Proofs.Schema.NormalForm
import SchemaDecl.Proofs.Schema.NormalizedTree
import SchemaDecl.Proofs.Schema.PreparedNodes
import SchemaDecl.Proofs.Schema.PreparedTree
import SchemaDecl.Proofs.Schema.PreparedViews
import SchemaDecl.Proofs.Schema.PropertyForms
import SchemaDecl.Proofs.Schema.References
import SchemaDecl.Proofs.Schema.RelativeReferences
import SchemaDecl.Proofs.Schema.Stability
import SchemaDecl.Proofs.Schema.VisitOrder
import SchemaDecl.Proofs.Settings.LastSettings
import SchemaDecl.Proofs.Settings.UnknownSettings
import SchemaDecl.Proofs.Text.LineByLine
import SchemaDecl.Proofs.Text.Pieces
import SchemaDecl.Proofs.Text.Settled
import SchemaDecl.Proofs.Text.Substitution
import SchemaDecl.Proofs.TypeScript.AlikeRenderings
import SchemaDecl.Proofs.TypeScript.AskedNames
import SchemaDecl.Proofs.TypeScript.AtomicReferences
import SchemaDecl.Proofs.TypeScript.Atoms
import SchemaDecl.Proofs.TypeScript.ClosedTexts
import SchemaDecl.Proofs.TypeScript.CodeScan
import SchemaDecl.Proofs.TypeScript.CommentBlocks
import SchemaDecl.Proofs.TypeScript.CommentScan
import SchemaDecl.Proofs.TypeScript.CompilerSessions
import SchemaDecl.Proofs.TypeScript.Composition
import SchemaDecl.Proofs.TypeScript.Descriptions
import SchemaDecl.Proofs.TypeScript.EnumNames
import SchemaDecl.Proofs.TypeScript.EnumSupply
import SchemaDecl.Proofs.TypeScript.Formation
import SchemaDecl.Proofs.TypeScript.FreeTexts
import SchemaDecl.Proofs.TypeScript.GrowthLaws
import SchemaDecl.Proofs.TypeScript.InterfaceBodies
import SchemaDecl.Proofs.TypeScript.Judgements
import SchemaDecl.Proofs.TypeScript.MemberNames
import SchemaDecl.Proofs.TypeScript.ReadReferences
import SchemaDecl.Proofs.TypeScript.Renaming
import SchemaDecl.Proofs.TypeScript.Runs
import SchemaDecl.Proofs.TypeScript.ScanLaws
import SchemaDecl.Proofs.TypeScript.Texts
import SchemaDecl.Proofs.TypeScript.TotalRenderings
import SchemaDecl.Proofs.UnknownTypes
import SchemaDecl.Proofs.WrittenCode
import SchemaDecl.Schema.Normal
import SchemaDecl.Schema.Prepared
import SchemaDecl.Schema.Reference
import SchemaDecl.Schema.TypeNames
import SchemaDecl.Schema.Visitors
import SchemaDecl.Schema.Walk
import SchemaDecl.Shell.Arithmetic
import SchemaDecl.Shell.Awk.Evaluation
import SchemaDecl.Shell.Awk.Parser
import SchemaDecl.Shell.Awk.Pattern
import SchemaDecl.Shell.Awk.Print
import SchemaDecl.Shell.Awk.State
import SchemaDecl.Shell.Awk.Syntax
import SchemaDecl.Shell.Awk.Table
import SchemaDecl.Shell.Awk.Token
import SchemaDecl.Shell.Awk.Value
import SchemaDecl.Shell.Brackets
import SchemaDecl.Shell.Builtins.Control
import SchemaDecl.Shell.Builtins.Table
import SchemaDecl.Shell.Builtins.Variables
import SchemaDecl.Shell.Bytes
import SchemaDecl.Shell.Characters
import SchemaDecl.Shell.Command
import SchemaDecl.Shell.Condition
import SchemaDecl.Shell.Expansion
import SchemaDecl.Shell.Format
import SchemaDecl.Shell.Machine
import SchemaDecl.Shell.Parser
import SchemaDecl.Shell.Pattern
import SchemaDecl.Shell.Programs.Awk
import SchemaDecl.Shell.Programs.Batches
import SchemaDecl.Shell.Programs.CharacterSets
import SchemaDecl.Shell.Programs.Counting
import SchemaDecl.Shell.Programs.Dump
import SchemaDecl.Shell.Programs.FileTools
import SchemaDecl.Shell.Programs.Filters
import SchemaDecl.Shell.Programs.Grep
import SchemaDecl.Shell.Programs.Invoking
import SchemaDecl.Shell.Programs.Numbers
import SchemaDecl.Shell.Programs.Options
import SchemaDecl.Shell.Programs.Parts
import SchemaDecl.Shell.Programs.Plain
import SchemaDecl.Shell.Programs.Quoting
import SchemaDecl.Shell.Programs.Sed
import SchemaDecl.Shell.Programs.SedScript
import SchemaDecl.Shell.Programs.Sorting
import SchemaDecl.Shell.Programs.Table
import SchemaDecl.Shell.Regex
import SchemaDecl.Shell.Run
import SchemaDecl.Shell.Session
import SchemaDecl.Shell.Source
import SchemaDecl.Shell.Task
import SchemaDecl.Shell.Tool
import SchemaDecl.Text.Blank
import SchemaDecl.Text.CaseTable
import SchemaDecl.Text.Lines
import SchemaDecl.Text.LowerCase
import SchemaDecl.Text.Printable
import SchemaDecl.Text.Replace
import SchemaDecl.TypeScript.Comment
import SchemaDecl.TypeScript.Compile
import SchemaDecl.TypeScript.Composite
import SchemaDecl.TypeScript.Declaration
import SchemaDecl.TypeScript.Formatter
import SchemaDecl.TypeScript.FormatterTool
import SchemaDecl.TypeScript.Growth
import SchemaDecl.TypeScript.IndexedAccess
import SchemaDecl.TypeScript.MemberName
import SchemaDecl.TypeScript.Options
import SchemaDecl.TypeScript.OutputCheck
import SchemaDecl.TypeScript.Render
import SchemaDecl.TypeScript.Shape
import SchemaDecl.TypeScript.TypeText
