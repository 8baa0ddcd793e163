import Listing.Formula
import Listing.Plan
import Listing.Proofs.Request.Disclosure
import Listing.Proofs.Sql.Agreement
import Listing.Request.Event
import Listing.Proofs.Filter.Skeleton
import Listing.Proofs.Sql.Binding
import Listing.Proofs.Sql.Precedence
import Listing.Proofs.Sql.Scanner
import Listing.Proofs.Sql.Reading
import Listing.Proofs.Filter.Composition
import Listing.Proofs.Sql.WhereClause
import Listing.Proofs.Sort.Stability
import Listing.Proofs.Sql.Execution
import Listing.Proofs.Page.Plans
import Listing.Proofs.Json.Lexing
import Listing.Proofs.Json.Printed
import Listing.Proofs.Time.Rfc3339
import Listing.Proofs.Json.Decoding
import Listing.Proofs.Filter.RoundTrip
import Listing.Proofs.Request.RoundTrip
import Listing.Proofs.Sort.Preorder
import Listing.Proofs.Json.Trimmed
import Listing.Proofs.Request.Reading
import Listing.Proofs.Request.Checks
import Listing.Proofs.Request.Parameters
import Listing.Proofs.Filter.Paths
import Listing.Proofs.Request.Nesting
import Listing.Proofs.Sort.Keys
import Listing.Proofs.Sort.Routines
import Listing.Proofs.Page.ContentRange
import Listing.Proofs.Page.Arithmetic
import Listing.Proofs.Predicate.Folds
import Listing.Proofs.Filter.Leaves
import Listing.Proofs.Filter.Wrapping
import Listing.Proofs.Sql.NormalForm
import Listing.Proofs.Filter.Exchange
import Listing.Proofs.Filter.Polarity
import Listing.Proofs.Filter.IgnoringCase
import Listing.Proofs.Filter.Regrouping
import Listing.Proofs.Sql.AsciiCapitals
import Listing.Proofs.Sql.Escaping
import Listing.Proofs.Json.Numerals
import Listing.Proofs.Json.Units
import Listing.Proofs.Json.Symbols
import Listing.Proofs.Json.Tree
import Listing.Proofs.Json.Members
import Listing.Proofs.Text.Trimming
import Listing.Proofs.Json.Parsing
import Listing.Proofs.Json.Margins
import Listing.Proofs.Filter.Presentation
import Listing.Proofs.Request.Spellings
