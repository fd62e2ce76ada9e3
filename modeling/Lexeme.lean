import Lexeme.Markup.Builder
import Lexeme.Markup.Report
import Lexeme.Pattern.Printer
import Lexeme.Proofs.Matching
import Lexeme.Proofs.Pattern
import Lexeme.Proofs.Repair
import Lexeme.Proofs.Resolution
import Lexeme.Regex.Bounds
import Lexeme.Session
import Lexeme.Settings.Reader
import Lexeme.Token.Stored
import Lexeme.Proofs.Grammar.Numbers
import Lexeme.Proofs.Nesting
import Lexeme.Proofs.CharacterConstants
import Lexeme.Proofs.Regex.Plain
import Lexeme.Proofs.Grammar.Quoted
import Lexeme.Proofs.Layout.Words
import Lexeme.Proofs.Layout.Tokens
import Lexeme.Proofs.Printing
import Lexeme.Proofs.Markup
import Lexeme.Proofs.Laminar
import Lexeme.Proofs.Stripping
import Lexeme.Proofs.Locality.Resolution
import Lexeme.Proofs.Regex.Parts
import Lexeme.Proofs.Locality.Lines
import Lexeme.Proofs.Compilation
import Lexeme.Proofs.Losses
import Lexeme.Proofs.Grammar.Derivation
import Lexeme.Proofs.MaximalMunch
import Lexeme.Proofs.Regex.Language
import Lexeme.Proofs.Grammar.Acceptance
import Lexeme.Proofs.Classification
import Lexeme.Proofs.Fixpoint
import Lexeme.Proofs.InputOrder
import Lexeme.Proofs.NormalForm
import Lexeme.Proofs.Nested
import Lexeme.Proofs.Html.Elements
import Lexeme.Proofs.Html.Text
import Lexeme.Proofs.Accounting
import Lexeme.Proofs.Isolation
import Lexeme.Proofs.Json.Values
import Lexeme.Proofs.Storage
import Lexeme.Proofs.Greedy
import Lexeme.Proofs.Suppression.Exact
import Lexeme.Proofs.Suppression.Independence
import Lexeme.Proofs.Session.Lexers
import Lexeme.Proofs.Suppression.Modes
import Lexeme.Proofs.Bracketing
import Lexeme.Proofs.Alternation
import Lexeme.Proofs.StoredObjects
import Lexeme.Proofs.Scanning
import Lexeme.Proofs.WholeWords
import Lexeme.Proofs.Coordinates
import Lexeme.Proofs.WordChoice
import Lexeme.Proofs.Sightings
