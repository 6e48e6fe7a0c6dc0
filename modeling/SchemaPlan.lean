import SchemaPlan.Files.Session
import SchemaPlan.Main
import SchemaPlan.Migration.Reader
import SchemaPlan.Proofs.Schema.AttributeSet
import SchemaPlan.Proofs.Source.Grammar
import SchemaPlan.Proofs.Text.Blank
import SchemaPlan.Proofs.Result
import SchemaPlan.Proofs.Schema.Document
import SchemaPlan.Proofs.Schema.Equality
import SchemaPlan.Proofs.Schema.Printable
import SchemaPlan.Proofs.Source.Acceptance
import SchemaPlan.Proofs.Source.Lexing
import SchemaPlan.Proofs.Source.RoundTrip
import SchemaPlan.Proofs.Json.Reader
import SchemaPlan.Proofs.Schema.Snapshot
import SchemaPlan.Proofs.Files.Path
import SchemaPlan.Proofs.Files.Store
import SchemaPlan.Proofs.Migration.Change
import SchemaPlan.Proofs.Command.History
import SchemaPlan.Proofs.Migration.Step
import SchemaPlan.Proofs.Migration.Equality
import SchemaPlan.Proofs.Migration.Reflection
import SchemaPlan.Proofs.Source.Seam
import SchemaPlan.Proofs.Source.Position
import SchemaPlan.Proofs.Source.Relocation
import SchemaPlan.Proofs.Source.Opening
import SchemaPlan.Proofs.Source.Composition
import SchemaPlan.Proofs.Command.FailedSync
import SchemaPlan.Proofs.Source.TokenText
import SchemaPlan.Proofs.Source.Tiling
import SchemaPlan.Proofs.Source.Fault
import SchemaPlan.Proofs.Source.Pointing
import SchemaPlan.Proofs.Source.Cursor
import SchemaPlan.Proofs.Source.Safety
import SchemaPlan.Proofs.Keys
import SchemaPlan.Proofs.Migration.Delta
import SchemaPlan.Proofs.Migration.Collision
import SchemaPlan.Proofs.Migration.Columns
import SchemaPlan.Proofs.Source.Account
import SchemaPlan.Proofs.Source.StoredTag
import SchemaPlan.Proofs.Source.Likeness
import SchemaPlan.Proofs.Source.Spacing
import SchemaPlan.Proofs.Source.LineEnding
import SchemaPlan.Proofs.Json.Content
import SchemaPlan.Proofs.Json.StringText
import SchemaPlan.Proofs.Json.Lexing
import SchemaPlan.Proofs.Json.Growth
import SchemaPlan.Proofs.Json.Extraction
import SchemaPlan.Proofs.Schema.Decoding
import SchemaPlan.Proofs.Naming.Word
import SchemaPlan.Proofs.Naming.Plural
import SchemaPlan.Proofs.Naming.Table
import SchemaPlan.Proofs.Naming.LetterCase
import SchemaPlan.Proofs.Migration.Renaming
import SchemaPlan.Proofs.Schema.Gathering
import SchemaPlan.Proofs.Schema.FiledDocument
import SchemaPlan.Proofs.Schema.DocumentRun
import SchemaPlan.Proofs.Source.Name
