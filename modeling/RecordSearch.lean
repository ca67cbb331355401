import RecordSearch.Bulk.Operation
import RecordSearch.Bulk.Reply
import RecordSearch.Client
import RecordSearch.Decimal.Binary
import RecordSearch.Decimal.Layout
import RecordSearch.Decimal.Shortest
import RecordSearch.Engine
import RecordSearch.Error
import RecordSearch.FileTree
import RecordSearch.Http.Request
import RecordSearch.Http.Status
import RecordSearch.Indexer
import RecordSearch.Json.Decode
import RecordSearch.Json.Number
import RecordSearch.Json.Printer
import RecordSearch.Json.Reader
import RecordSearch.Json.Tree
import RecordSearch.Json.Value
import RecordSearch.KeyMap
import RecordSearch.Log
import RecordSearch.Proofs.Bulk.Delivery
import RecordSearch.Proofs.Bulk.ReadBack
import RecordSearch.Proofs.Bulk.Reading
import RecordSearch.Proofs.Bulk.Verdict
import RecordSearch.Proofs.Bulk.Visit
import RecordSearch.Proofs.Bulk.Written
import RecordSearch.Proofs.Client.Acknowledgement
import RecordSearch.Proofs.Client.BasePath
import RecordSearch.Proofs.Client.Bulk
import RecordSearch.Proofs.Client.Classification
import RecordSearch.Proofs.Client.Failure
import RecordSearch.Proofs.Client.Pieces
import RecordSearch.Proofs.Client.Refusal
import RecordSearch.Proofs.Client.Search
import RecordSearch.Proofs.Client.Send
import RecordSearch.Proofs.Client.Target
import RecordSearch.Proofs.Client.Twins
import RecordSearch.Proofs.Decimal.Finite
import RecordSearch.Proofs.Decimal.Layout
import RecordSearch.Proofs.Engine.Creation
import RecordSearch.Proofs.Engine.Credentials
import RecordSearch.Proofs.Engine.OneRequest
import RecordSearch.Proofs.Engine.Paging
import RecordSearch.Proofs.Engine.Search
import RecordSearch.Proofs.Engine.Twins
import RecordSearch.Proofs.Indexer.Addressing
import RecordSearch.Proofs.Indexer.Content
import RecordSearch.Proofs.Indexer.Documents
import RecordSearch.Proofs.Indexer.FirstFailure
import RecordSearch.Proofs.Indexer.Modes
import RecordSearch.Proofs.Indexer.Operations
import RecordSearch.Proofs.Indexer.Twins
import RecordSearch.Proofs.Indexer.Undo
import RecordSearch.Proofs.Indexer.Verdicts
import RecordSearch.Proofs.Json.Canonical
import RecordSearch.Proofs.Json.Decode
import RecordSearch.Proofs.Json.Depth
import RecordSearch.Proofs.Json.Likeness
import RecordSearch.Proofs.Json.Members
import RecordSearch.Proofs.Json.Numeral
import RecordSearch.Proofs.Json.OneLine
import RecordSearch.Proofs.Json.ReadBack
import RecordSearch.Proofs.Json.Strict
import RecordSearch.Proofs.KeyMap
import RecordSearch.Proofs.Query.Clauses
import RecordSearch.Proofs.Query.Document
import RecordSearch.Proofs.Query.Faithful
import RecordSearch.Proofs.Query.Form
import RecordSearch.Proofs.Query.Matching
import RecordSearch.Proofs.Query.ReadBack
import RecordSearch.Proofs.Query.Steps
import RecordSearch.Proofs.Query.Window
import RecordSearch.Proofs.Response.RankOrder
import RecordSearch.Proofs.Response.ReadBack
import RecordSearch.Proofs.Response.Written
import RecordSearch.Proofs.Run
import RecordSearch.Proofs.Settings.Discovery
import RecordSearch.Proofs.Settings.ReadBack
import RecordSearch.Proofs.Settings.Timeout
import RecordSearch.Proofs.Settings.Validity
import RecordSearch.Proofs.Steps
import RecordSearch.Proofs.Text.Base64
import RecordSearch.Proofs.Text.Blank
import RecordSearch.Proofs.Text.Digits
import RecordSearch.Proofs.Text.Order
import RecordSearch.Proofs.Text.Percent
import RecordSearch.Proofs.Text.Pieces
import RecordSearch.Proofs.Text.Utf8
import RecordSearch.Proofs.Twins
import RecordSearch.Proofs.Url.Address
import RecordSearch.Proofs.Url.Authority
import RecordSearch.Proofs.Url.Path
import RecordSearch.Proofs.Url.ReadBack
import RecordSearch.Proofs.Url.Scheme
import RecordSearch.Proofs.Url.Segments
import RecordSearch.Proofs.Url.Web
import RecordSearch.Query.Document
import RecordSearch.Query.Filter
import RecordSearch.Query.Policy
import RecordSearch.Query.Request
import RecordSearch.Record
import RecordSearch.Response.Basic
import RecordSearch.Response.Codec
import RecordSearch.Response.Reconcile
import RecordSearch.Session
import RecordSearch.Settings.Basic
import RecordSearch.Settings.Codec
import RecordSearch.Settings.Discovery
import RecordSearch.Settings.Yaml
import RecordSearch.Text.Base64
import RecordSearch.Text.Blank
import RecordSearch.Text.Percent
import RecordSearch.Text.Pieces
import RecordSearch.Text.Utf8
import RecordSearch.Url.Address
import RecordSearch.Url.Basic
import RecordSearch.Url.Reader
import RecordSearch.Yaml.Decode
import RecordSearch.Yaml.Node
import RecordSearch.Yaml.Place
import RecordSearch.Yaml.Plain
import RecordSearch.Yaml.Property
import RecordSearch.Yaml.Scalar
import RecordSearch.Yaml.Token
