import HeaderReflection.Attribute.Basic
import HeaderReflection.Attribute.Bearer
import HeaderReflection.Attribute.Catalog
import HeaderReflection.Attribute.Native
import HeaderReflection.Attribute.Reader
import HeaderReflection.Attribute.Word
import HeaderReflection.Binary64
import HeaderReflection.Binary64.Shortest
import HeaderReflection.CommandLine.Command
import HeaderReflection.CommandLine.Console
import HeaderReflection.CommandLine.Outcome
import HeaderReflection.CommandLine.Report
import HeaderReflection.Configuration.Load
import HeaderReflection.Database
import HeaderReflection.Declaration.Accessor
import HeaderReflection.Declaration.Basic
import HeaderReflection.Declaration.Flag
import HeaderReflection.Declaration.Kind
import HeaderReflection.Declaration.Member
import HeaderReflection.Declaration.Parameter
import HeaderReflection.Declaration.Type
import HeaderReflection.Derivation.Effect
import HeaderReflection.Derivation.FlagAccessor
import HeaderReflection.Derivation.NameIndex
import HeaderReflection.Derivation.Outcome
import HeaderReflection.Derivation.Plan
import HeaderReflection.Derivation.Synthesis
import HeaderReflection.Derivation.Traits
import HeaderReflection.Digest.Sha1
import HeaderReflection.Discovery
import HeaderReflection.Environment
import HeaderReflection.Fault
import HeaderReflection.FileTree
import HeaderReflection.Keyed
import HeaderReflection.Lexer.Basic
import HeaderReflection.Lexer.Bracket
import HeaderReflection.Lexer.Expression
import HeaderReflection.Lexer.Group
import HeaderReflection.Lexer.Iterate
import HeaderReflection.Lexer.Literal
import HeaderReflection.Lexer.Step
import HeaderReflection.Lexer.TypeText
import HeaderReflection.Program.Ancestry
import HeaderReflection.Program.Basic
import HeaderReflection.Program.Entity
import HeaderReflection.Schedule
import HeaderReflection.Session
import HeaderReflection.Settings.Basic
import HeaderReflection.Settings.Options
import HeaderReflection.Source.ClassDeclaration
import HeaderReflection.Source.ClassHead
import HeaderReflection.Source.EnumDeclaration
import HeaderReflection.Source.EnumText
import HeaderReflection.Source.FieldDeclaration
import HeaderReflection.Source.FieldText
import HeaderReflection.Source.Language
import HeaderReflection.Source.Marker
import HeaderReflection.Source.MethodDeclaration
import HeaderReflection.Source.MethodText
import HeaderReflection.Source.Progress
import HeaderReflection.Source.Reader
import HeaderReflection.SourcePath
import HeaderReflection.Text.Alphanumeric
import HeaderReflection.Text.Blank
import HeaderReflection.Text.Identifier
import HeaderReflection.Text.Lines
import HeaderReflection.Text.Lowercase
import HeaderReflection.Text.Numeral
import HeaderReflection.Text.Outside
import HeaderReflection.Uid
import HeaderReflection.Value
import HeaderReflection.Value.Json
import HeaderReflection.Proofs.Attribute.EnumNames
import HeaderReflection.Proofs.Source.EnumNames
import HeaderReflection.Proofs.Checked
import HeaderReflection.Proofs.Source.Steps
import HeaderReflection.Proofs.Session.Schedules
import HeaderReflection.Proofs.Session.Order
import HeaderReflection.Proofs.Session.Accepted
import HeaderReflection.Proofs.Derivation.Locality
import HeaderReflection.Proofs.Derivation.MethodNames
import HeaderReflection.Proofs.Lexer.Yields
import HeaderReflection.Proofs.Source.Declared
import HeaderReflection.Proofs.Derivation.Work
import HeaderReflection.Proofs.Derivation.Synthesis
import HeaderReflection.Proofs.Lexer.Takes
import HeaderReflection.Proofs.Attribute.NativeText
import HeaderReflection.Proofs.Attribute.Reserved
import HeaderReflection.Proofs.Attribute.Validity
import HeaderReflection.Proofs.Declaration.Properties
import HeaderReflection.Proofs.Source.NativeText
import HeaderReflection.Proofs.Source.Made
import HeaderReflection.Proofs.Source.Reserved
import HeaderReflection.Proofs.Source.Accepted
import HeaderReflection.Proofs.Source.Lines
import HeaderReflection.Proofs.Derivation.Planned
import HeaderReflection.Proofs.Derivation.Faults
import HeaderReflection.Proofs.Derivation.Derived
import HeaderReflection.Proofs.Derivation.Marks
import HeaderReflection.Proofs.Uid
import HeaderReflection.Proofs.Program.Identity
import HeaderReflection.Proofs.Database.Members
import HeaderReflection.Proofs.Database.Closure
import HeaderReflection.Proofs.Source.BodyMarkers
import HeaderReflection.Proofs.Source.Layout
import HeaderReflection.Proofs.Source.LineNumbers
import HeaderReflection.Proofs.Source.Inert
import HeaderReflection.Proofs.Source.Concatenation
import HeaderReflection.Proofs.Source.FaultPlaces
import HeaderReflection.Proofs.Derivation.FaultPlaces
import HeaderReflection.Proofs.Derivation.Enrichment
import HeaderReflection.Proofs.Derivation.Rederivation
import HeaderReflection.Proofs.Session.Replay
import HeaderReflection.Proofs.Discovery
import HeaderReflection.Proofs.Session.Files
import HeaderReflection.Proofs.Lexer.Comments
import HeaderReflection.Proofs.Lexer.CommentedRuns
import HeaderReflection.Proofs.Source.CommentedHeads
import HeaderReflection.Proofs.Source.TrailingComments
import HeaderReflection.Proofs.Program.Lookup
import HeaderReflection.Proofs.Program.FullNames
import HeaderReflection.Proofs.Derivation.Redefinitions
import HeaderReflection.Proofs.CommandLine.Printing
import HeaderReflection.Proofs.CommandLine.Outcome
import HeaderReflection.Proofs.Attribute.Written
import HeaderReflection.Proofs.Attribute.Words
import HeaderReflection.Proofs.Attribute.ReadBack
import HeaderReflection.Proofs.Attribute.Iterations
import HeaderReflection.Proofs.Attribute.Progress
import HeaderReflection.Proofs.Attribute.Work
import HeaderReflection.Proofs.Lexer.Groups
import HeaderReflection.Proofs.Attribute.Delimited
import HeaderReflection.Proofs.Attribute.Layers
import HeaderReflection.Proofs.Source.FieldFlags
import HeaderReflection.Proofs.Source.Layers
import HeaderReflection.Proofs.Lexer.Nesting
import HeaderReflection.Proofs.Lexer.Crossing
import HeaderReflection.Proofs.Text.Outside
import HeaderReflection.Proofs.Lexer.Conservation
import HeaderReflection.Proofs.Declaration.Parameters
import HeaderReflection.Proofs.Lexer.Words
import HeaderReflection.Proofs.Lexer.WholeTypes
import HeaderReflection.Proofs.Source.MethodParts
import HeaderReflection.Proofs.Lexer.ExpressionEnds
import HeaderReflection.Proofs.Source.IntegerLiterals
import HeaderReflection.Proofs.Source.EnumeratorText
import HeaderReflection.Proofs.Source.EnumBodies
import HeaderReflection.Proofs.Source.Origins
import HeaderReflection.Proofs.Source.TrailingReturnTypes
import HeaderReflection.Proofs.Source.FieldParts
import HeaderReflection.Proofs.Source.FieldMarkers
import HeaderReflection.Proofs.Source.NamesAndTypes
import HeaderReflection.Proofs.Source.RenderedFields
import HeaderReflection.Proofs.Text.Lines
import HeaderReflection.Proofs.Source.FlagOrder
import HeaderReflection.Proofs.Source.FieldRoundTrip
import HeaderReflection.Proofs.Source.AccessorClaims
import HeaderReflection.Proofs.Source.BaseClasses
import HeaderReflection.Proofs.Source.Extents
import HeaderReflection.Proofs.Source.EnumeratorLists
import HeaderReflection.Proofs.Source.AccessAndComments
import HeaderReflection.Proofs.Derivation.FieldMethods
import HeaderReflection.Proofs.Derivation.FlagMethods
import HeaderReflection.Proofs.Derivation.FlagBits
import HeaderReflection.Proofs.Derivation.StaticAccessors
import HeaderReflection.Proofs.Derivation.FieldProperties
import HeaderReflection.Proofs.Program.Ancestors
import HeaderReflection.Proofs.Discovery.Complete
import HeaderReflection.Proofs.Declaration.ParameterNames
import HeaderReflection.Proofs.Derivation.Proxies
import HeaderReflection.Proofs.Derivation.ScriptNames
