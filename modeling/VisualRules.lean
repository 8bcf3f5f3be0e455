import VisualRules.Bytes.Base64
import VisualRules.Bytes.Marked
import VisualRules.Bytes.Search
import VisualRules.Bytes.Utf8
import VisualRules.CommandLine.Basic
import VisualRules.CommandLine.Reading
import VisualRules.Decimal.Basic
import VisualRules.Decimal.Reading
import VisualRules.Decimal.Shortest
import VisualRules.Endpoint
import VisualRules.Failure
import VisualRules.Http.Form
import VisualRules.Http.MediaType
import VisualRules.Http.Message
import VisualRules.Http.PartHead
import VisualRules.Json.Encoded
import VisualRules.Json.Fault
import VisualRules.Json.Reader
import VisualRules.Json.Record
import VisualRules.Json.Scan
import VisualRules.Json.Schema
import VisualRules.Json.Skip
import VisualRules.Json.Value
import VisualRules.Main
import VisualRules.Model.Client
import VisualRules.Model.Completion
import VisualRules.Model.Media
import VisualRules.Model.Prompt
import VisualRules.Program
import VisualRules.Proofs.Bytes.Base64
import VisualRules.Proofs.Bytes.Boundary
import VisualRules.Proofs.Bytes.RoundTrip
import VisualRules.Proofs.Bytes.Utf8
import VisualRules.Proofs.Endpoint.Blocking
import VisualRules.Proofs.Endpoint.Checking
import VisualRules.Proofs.Endpoint.Judging
import VisualRules.Proofs.Endpoint.Network
import VisualRules.Proofs.Endpoint.Posting
import VisualRules.Proofs.Graph.Cycle
import VisualRules.Proofs.Graph.Joined
import VisualRules.Proofs.Graph.Path
import VisualRules.Proofs.Graph.Place
import VisualRules.Proofs.Graph.Reaching
import VisualRules.Proofs.Graph.Step
import VisualRules.Proofs.Graph.Survey
import VisualRules.Proofs.Graph.Sweep
import VisualRules.Proofs.Json.Conformance
import VisualRules.Proofs.Json.Extent
import VisualRules.Proofs.Json.Filling
import VisualRules.Proofs.Json.Form
import VisualRules.Proofs.Json.Holding
import VisualRules.Proofs.Json.Layout
import VisualRules.Proofs.Json.Locality
import VisualRules.Proofs.Json.Reading
import VisualRules.Proofs.Json.Refusing
import VisualRules.Proofs.Json.Scanning
import VisualRules.Proofs.Json.Tree
import VisualRules.Proofs.Json.Understanding
import VisualRules.Proofs.Json.Writing
import VisualRules.Proofs.Model.Completing
import VisualRules.Proofs.Model.Content
import VisualRules.Proofs.Model.Replying
import VisualRules.Proofs.Rendering.Access
import VisualRules.Proofs.Rendering.Counting
import VisualRules.Proofs.Rendering.Coverage
import VisualRules.Proofs.Rendering.Ending
import VisualRules.Proofs.Rendering.Meaning
import VisualRules.Proofs.Rendering.Outline
import VisualRules.Proofs.Rendering.Phrase
import VisualRules.Proofs.Rendering.Reading
import VisualRules.Proofs.Rendering.Roots
import VisualRules.Proofs.Rendering.Size
import VisualRules.Proofs.Rendering.Writing
import VisualRules.Proofs.Rule.Agreement
import VisualRules.Proofs.Rule.Conformance
import VisualRules.Proofs.Rule.Document
import VisualRules.Proofs.Rule.Layout
import VisualRules.Proofs.Rule.Reading
import VisualRules.Proofs.Rule.Writing
import VisualRules.Proofs.Service.Answering
import VisualRules.Proofs.Service.Asking
import VisualRules.Proofs.Service.Gathering
import VisualRules.Proofs.Service.Outcome
import VisualRules.Proofs.Service.Receiving
import VisualRules.Proofs.Service.Storage
import VisualRules.Proofs.Service.Submitting
import VisualRules.Proofs.Upload.DataUri
import VisualRules.Proofs.Upload.Naming
import VisualRules.Proofs.Upload.Pieces
import VisualRules.Proofs.Upload.Referencing
import VisualRules.Proofs.Upload.Storing
import VisualRules.Proofs.Url.Address
import VisualRules.Proofs.Url.Authority
import VisualRules.Proofs.Url.Groups
import VisualRules.Proofs.Url.HostText
import VisualRules.Proofs.Url.Parsing
import VisualRules.Proofs.Validation.Acceptance
import VisualRules.Proofs.Validation.Check
import VisualRules.Proofs.Validation.Condition
import VisualRules.Proofs.Validation.First
import VisualRules.Proofs.Validation.Rearranging
import VisualRules.Proofs.Validation.RoundTrip
import VisualRules.Proofs.Validation.Shape
import VisualRules.Proofs.Validation.WellFormed
import VisualRules.Rule.Basic
import VisualRules.Rule.Candidate
import VisualRules.Rule.Decoding
import VisualRules.Rule.Defect
import VisualRules.Rule.Encoding
import VisualRules.Rule.Expression
import VisualRules.Rule.Graph
import VisualRules.Rule.Report
import VisualRules.Rule.Schema
import VisualRules.Rule.Search
import VisualRules.Rule.Validation
import VisualRules.Service.Basic
import VisualRules.Service.Counter
import VisualRules.Service.Failure
import VisualRules.Service.Generation
import VisualRules.Service.Intake
import VisualRules.Service.Route
import VisualRules.Settings.Basic
import VisualRules.Settings.File
import VisualRules.Settings.Listen
import VisualRules.Text.Blank
import VisualRules.Text.Duration
import VisualRules.Text.Quoted
import VisualRules.Text.Shown
import VisualRules.Text.Surrogate
import VisualRules.Text.Truncated
import VisualRules.Upload.ContentType
import VisualRules.Upload.Name
import VisualRules.Upload.Store
import VisualRules.Url.Basic
import VisualRules.Url.Host
import VisualRules.Url.Ip
import VisualRules.Url.Percent
import VisualRules.Url.Punycode
import VisualRules.Yaml.Cursor
import VisualRules.Yaml.Field
import VisualRules.Yaml.Node
import VisualRules.Yaml.Scalar
import VisualRules.Yaml.Token
