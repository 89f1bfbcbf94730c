import Docblock.AnnotationError
import Docblock.Class.Declaration
import Docblock.Class.Registry
import Docblock.Class.Standard
import Docblock.Class.StandardName
import Docblock.ClassName
import Docblock.Decimal.Binary
import Docblock.Decimal.Fixed
import Docblock.Decimal.Integer
import Docblock.Decimal.Reading
import Docblock.Decimal.Shortest
import Docblock.Json
import Docblock.Key
import Docblock.OrderedMap
import Docblock.Parser
import Docblock.Reading.Argument
import Docblock.Reading.Basic
import Docblock.Reading.Check
import Docblock.Reading.Constant
import Docblock.Reading.DocText
import Docblock.Reading.Name
import Docblock.Reading.Object
import Docblock.Reading.Value
import Docblock.Record.Basic
import Docblock.Sample
import Docblock.Schema.Annotation
import Docblock.Schema.Memory
import Docblock.Schema.Property
import Docblock.Schema.Reflection
import Docblock.Schema.Standard
import Docblock.Schema.Table
import Docblock.Settings.Basic
import Docblock.Settings.Document
import Docblock.Settings.Sorted
import Docblock.Target
import Docblock.Text.CharClass
import Docblock.Text.LowerCase
import Docblock.Text.Trim
import Docblock.Token.Basic
import Docblock.Token.Lexeme
import Docblock.Token.Scan
import Docblock.Token.Window
import Docblock.Toml.Reading
import Docblock.Toml.Table
import Docblock.Value.Basic
import Docblock.Value.Json
import Docblock.Value.LooseEquality
import Docblock.ValueType
import Docblock.Proofs.Lookup.Relation
import Docblock.Proofs.Lookup.Readers
import Docblock.Proofs.Schema.Scratch
import Docblock.Proofs.Schema.WellFormed
import Docblock.Proofs.Schema.Faithful
import Docblock.Proofs.Schema.Recalled
import Docblock.Proofs.Schema.Transparency
import Docblock.Proofs.Parser.History
import Docblock.Proofs.Parser.Session
import Docblock.Proofs.Grammar.Constant
import Docblock.Proofs.Grammar.Phrase
import Docblock.Proofs.Grammar.Completeness
import Docblock.Proofs.Grammar.Defined
import Docblock.Proofs.Grammar.Soundness
import Docblock.Proofs.Grammar.Term
import Docblock.Proofs.Grammar.Meaning
import Docblock.Proofs.Grammar.Document
import Docblock.Proofs.Grammar.Origin
import Docblock.Proofs.Grammar.Exactness
import Docblock.Proofs.Decimal.MachineText
import Docblock.Proofs.Token.Scanning
import Docblock.Proofs.Value.Source
import Docblock.Proofs.Value.Spelling
import Docblock.Proofs.Value.Rereading
import Docblock.Proofs.Parser.Described
import Docblock.Proofs.Parser.Writing
import Docblock.Proofs.Object.SingleArgument
import Docblock.Proofs.Parser.ReadingBack
import Docblock.Proofs.Parser.RoundTrip
import Docblock.Proofs.Object.Arguments
import Docblock.Proofs.Object.Checking
import Docblock.Proofs.Object.Assigning
import Docblock.Proofs.Object.Conformance
import Docblock.Proofs.Object.Deciding
import Docblock.Proofs.Object.Made
import Docblock.Proofs.Parser.Conformance
import Docblock.Proofs.Token.Tiling
import Docblock.Proofs.Token.Concatenation
import Docblock.Proofs.Token.Outline
import Docblock.Proofs.Object.Enumerations
import Docblock.Proofs.Parser.Enumerations
import Docblock.Proofs.Lookup.Correspondence
import Docblock.Proofs.Lookup.Corresponding
import Docblock.Proofs.Parser.Composition
import Docblock.Proofs.Schema.Circularity
import Docblock.Proofs.Schema.Provision
import Docblock.Proofs.Schema.Orderly
import Docblock.Proofs.Schema.Nesting
import Docblock.Proofs.Parser.Cycles
import Docblock.Proofs.Token.Layout
import Docblock.Proofs.Parser.Layout
import Docblock.Proofs.Parser.Targets
import Docblock.Proofs.Parser.Tidy
import Docblock.Proofs.Token.Paths
import Docblock.Proofs.Token.Renaming
import Docblock.Proofs.Lookup.Aliases
import Docblock.Proofs.Parser.Aliases
import Docblock.Proofs.Parser.ValidSettings
import Docblock.Proofs.Object.Hierarchy
import Docblock.Proofs.Parser.Ancestors
import Docblock.Proofs.Lookup.Property
import Docblock.Proofs.Token.Signs
import Docblock.Proofs.Lookup.Occurrences
import Docblock.Proofs.Parser.Occurrences
import Docblock.Proofs.Lookup.Failures
import Docblock.Proofs.Object.Records
import Docblock.Proofs.Schema.Records
import Docblock.Proofs.Parser.Failures
import Docblock.Proofs.Parser.Families
import Docblock.Proofs.Lookup.Answers
import Docblock.Proofs.Lookup.Verdict
import Docblock.Proofs.Parser.Verdicts
import Docblock.Proofs.Grammar.Blank
import Docblock.Proofs.Parser.Shown
import Docblock.Proofs.Parser.Insertion
import Docblock.Proofs.Object.Listing
import Docblock.Proofs.Grammar.Single
import Docblock.Proofs.Parser.SingleValues
import Docblock.Proofs.Object.Instances
import Docblock.Proofs.Object.Folding
import Docblock.Proofs.Object.Reordering
import Docblock.Proofs.Token.Languages
import Docblock.Proofs.Token.LongestMatch
import Docblock.Proofs.Token.Positions
import Docblock.Proofs.Decimal.CanonicalText
import Docblock.Proofs.OrderedMap.Operations
import Docblock.Proofs.OrderedMap.Equality
import Docblock.Proofs.Object.Reachability
import Docblock.Proofs.Schema.TypeText
import Docblock.Proofs.Decimal.NotNaN
import Docblock.Proofs.Value.LooseEquality
import Docblock.Proofs.Schema.DeclaredTypes
import Docblock.Proofs.Grammar.AttributeTerms
import Docblock.Proofs.Parser.AttributeText
import Docblock.Proofs.Parser.TypeDeclarations
import Docblock.Proofs.Text.LowerCase
import Docblock.Proofs.Settings.IgnoredNamespaces
import Docblock.Proofs.Object.Contents
import Docblock.Proofs.Schema.DocTags
import Docblock.Proofs.Schema.Combined
import Docblock.Proofs.Parser.CombinedProperties
import Docblock.Proofs.Schema.TableOrder
import Docblock.Proofs.ValueType.Null
import Docblock.Proofs.Text.Idempotence
import Docblock.Proofs.Settings.Imports
import Docblock.Proofs.Token.Stretches
import Docblock.Proofs.Grammar.NameText
import Docblock.Proofs.Json.Trees
import Docblock.Proofs.Token.Cursor
import Docblock.Proofs.Token.IntegerLiterals
import Docblock.Proofs.Value.JsonText
import Docblock.Proofs.Decimal.Rounding
import Docblock.Proofs.Decimal.NearestDouble
import Docblock.Proofs.Value.IntegerTexts
