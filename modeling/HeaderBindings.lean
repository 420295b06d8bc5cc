import HeaderBindings.Artifact.Document
import HeaderBindings.Artifact.Standard
import HeaderBindings.Bindings
import HeaderBindings.CType
import HeaderBindings.Cache
import HeaderBindings.Decimal.Shortest
import HeaderBindings.Declaration.Basic
import HeaderBindings.Declaration.Parse
import HeaderBindings.Digest.Sha256
import HeaderBindings.Discovery
import HeaderBindings.FileTree.Basic
import HeaderBindings.FileTree.Path
import HeaderBindings.Header.Candidate
import HeaderBindings.Header.PatternRule
import HeaderBindings.Header.Rule
import HeaderBindings.Json.Basic
import HeaderBindings.Json.Codec
import HeaderBindings.Json.Literal
import HeaderBindings.Json.Number
import HeaderBindings.Json.Parse
import HeaderBindings.Json.Print
import HeaderBindings.Json.Record
import HeaderBindings.Model.Basic
import HeaderBindings.Model.Build
import HeaderBindings.Options
import HeaderBindings.Pattern.Match
import HeaderBindings.Pattern.Parse
import HeaderBindings.Pattern.Program
import HeaderBindings.Pattern.Syntax
import HeaderBindings.Proofs.Artifact.Comment
import HeaderBindings.Proofs.Artifact.Document
import HeaderBindings.Proofs.Artifact.Template
import HeaderBindings.Proofs.Bindings
import HeaderBindings.Proofs.Cache.Apart
import HeaderBindings.Proofs.Cache.Entry
import HeaderBindings.Proofs.Cache.Key
import HeaderBindings.Proofs.Cache.Run
import HeaderBindings.Proofs.Declaration.Function
import HeaderBindings.Proofs.Declaration.Grammar
import HeaderBindings.Proofs.Declaration.Lexeme
import HeaderBindings.Proofs.Declaration.Name
import HeaderBindings.Proofs.Declaration.Normal
import HeaderBindings.Proofs.Declaration.Parameter
import HeaderBindings.Proofs.Declaration.Read
import HeaderBindings.Proofs.Declaration.Standard
import HeaderBindings.Proofs.Declaration.Stars
import HeaderBindings.Proofs.Discovery.Least
import HeaderBindings.Proofs.Discovery.Search
import HeaderBindings.Proofs.Discovery.Way
import HeaderBindings.Proofs.FileTree.Change
import HeaderBindings.Proofs.FileTree.Inside
import HeaderBindings.Proofs.FileTree.Named
import HeaderBindings.Proofs.FileTree.Way
import HeaderBindings.Proofs.Header.Candidate
import HeaderBindings.Proofs.Header.Comment
import HeaderBindings.Proofs.Header.Definition
import HeaderBindings.Proofs.Header.Lexeme
import HeaderBindings.Proofs.Header.Place
import HeaderBindings.Proofs.Header.Rule
import HeaderBindings.Proofs.Header.SpacedComment
import HeaderBindings.Proofs.Header.Spacing
import HeaderBindings.Proofs.Header.Statement
import HeaderBindings.Proofs.Header.Whitespace
import HeaderBindings.Proofs.Json.Codec
import HeaderBindings.Proofs.Json.Grammar
import HeaderBindings.Proofs.Json.Literal
import HeaderBindings.Proofs.Json.Number
import HeaderBindings.Proofs.Json.Record
import HeaderBindings.Proofs.Json.Text
import HeaderBindings.Proofs.Layout.Cut
import HeaderBindings.Proofs.Layout.Declared
import HeaderBindings.Proofs.Layout.Rewritten
import HeaderBindings.Proofs.Layout.Spells
import HeaderBindings.Proofs.Layout.Written
import HeaderBindings.Proofs.Model.Account
import HeaderBindings.Proofs.Model.Complete
import HeaderBindings.Proofs.Model.Compose
import HeaderBindings.Proofs.Model.Definition
import HeaderBindings.Proofs.Model.Normal
import HeaderBindings.Proofs.Model.Order
import HeaderBindings.Proofs.Model.Search
import HeaderBindings.Proofs.Model.Sift
import HeaderBindings.Proofs.Model.SpacedComment
import HeaderBindings.Proofs.Model.Truncated
import HeaderBindings.Proofs.PartialOptions
import HeaderBindings.Proofs.Stored
import HeaderBindings.Proofs.Text.Lexeme
import HeaderBindings.Proofs.Text.Place
import HeaderBindings.Proofs.Text.Runs
import HeaderBindings.Proofs.Text.Scan
import HeaderBindings.Proofs.Text.Token
import HeaderBindings.Proofs.Text.Utf8
import HeaderBindings.Proofs.Text.Walk
import HeaderBindings.Proofs.Text.Word
import HeaderBindings.Proofs.Text.Words
import HeaderBindings.Stored
import HeaderBindings.Text.Blank
import HeaderBindings.Text.Quoted
import HeaderBindings.Text.Scan
import HeaderBindings.Text.Word
