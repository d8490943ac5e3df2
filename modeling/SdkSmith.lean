import SdkSmith.Api.Description
import SdkSmith.Api.Endpoint
import SdkSmith.Api.HttpMethod
import SdkSmith.Api.Payload
import SdkSmith.Api.Schema
import SdkSmith.Cli.Arguments
import SdkSmith.Cli.Run
import SdkSmith.Client.Connector
import SdkSmith.Client.Dto
import SdkSmith.Client.Imports
import SdkSmith.Client.Plan
import SdkSmith.Client.Request
import SdkSmith.Client.Resource
import SdkSmith.Client.Sdk
import SdkSmith.Client.Support
import SdkSmith.Client.Template
import SdkSmith.Document.Datum
import SdkSmith.Document.Mismatch
import SdkSmith.Document.Reading
import SdkSmith.Failure
import SdkSmith.Format
import SdkSmith.Har.Archive
import SdkSmith.Har.Description
import SdkSmith.Json.Printer
import SdkSmith.Json.Reader
import SdkSmith.Json.Value
import SdkSmith.Main
import SdkSmith.Naming.Casing
import SdkSmith.Naming.Fresh
import SdkSmith.Naming.Memo
import SdkSmith.Naming.Words
import SdkSmith.Notice.Basic
import SdkSmith.Notice.Filter
import SdkSmith.Notice.Sdk
import SdkSmith.Notice.Source
import SdkSmith.Number.Double
import SdkSmith.Number.Shortest
import SdkSmith.OpenApi.Description
import SdkSmith.OpenApi.Document
import SdkSmith.OpenApi.Hoist
import SdkSmith.OpenApi.Merge
import SdkSmith.OpenApi.Reading
import SdkSmith.OpenApi.References
import SdkSmith.OpenApi.Schema
import SdkSmith.OpenApi.Source
import SdkSmith.Output.Disk
import SdkSmith.Output.FileTree
import SdkSmith.Output.Path
import SdkSmith.Output.Report
import SdkSmith.Php.Class
import SdkSmith.Php.Expr
import SdkSmith.Php.Render
import SdkSmith.Postman.Collection
import SdkSmith.Postman.Description
import SdkSmith.Postman.Endpoint
import SdkSmith.Postman.Outline
import SdkSmith.Proofs.Api.Annotations
import SdkSmith.Proofs.Api.Segments
import SdkSmith.Proofs.Client.Connector.Accessors
import SdkSmith.Proofs.Client.Connector.BaseUrl
import SdkSmith.Proofs.Client.Connector.Credentials
import SdkSmith.Proofs.Client.Connector.Keyring
import SdkSmith.Proofs.Client.Connector.Members
import SdkSmith.Proofs.Client.Connector.Tokens
import SdkSmith.Proofs.Client.Dto.DataMaps
import SdkSmith.Proofs.Client.Dto.DataMembers
import SdkSmith.Proofs.Client.Dto.Fields
import SdkSmith.Proofs.Client.Dto.ObjectFiles
import SdkSmith.Proofs.Client.Dto.SchemaNames
import SdkSmith.Proofs.Client.Imports.CrossReferences
import SdkSmith.Proofs.Client.Imports.HeaderNames
import SdkSmith.Proofs.Client.Imports.Headers
import SdkSmith.Proofs.Client.Imports.ImportNames
import SdkSmith.Proofs.Client.Imports.KnownNames
import SdkSmith.Proofs.Client.Imports.TracedData
import SdkSmith.Proofs.Client.Imports.TracedFiles
import SdkSmith.Proofs.Client.Imports.Usage
import SdkSmith.Proofs.Client.Plan.CallNames
import SdkSmith.Proofs.Client.Plan.ClassNames
import SdkSmith.Proofs.Client.Plan.Grouping
import SdkSmith.Proofs.Client.Plan.Growth
import SdkSmith.Proofs.Client.Plan.Members
import SdkSmith.Proofs.Client.Request.MemberSources
import SdkSmith.Proofs.Client.Request.Methods
import SdkSmith.Proofs.Client.Request.PathTexts
import SdkSmith.Proofs.Client.Request.Placeholders
import SdkSmith.Proofs.Client.Request.Reads
import SdkSmith.Proofs.Client.Request.Sending
import SdkSmith.Proofs.Client.Sdk.Clashes
import SdkSmith.Proofs.Client.Sdk.Collisions
import SdkSmith.Proofs.Client.Sdk.Declarable
import SdkSmith.Proofs.Client.Sdk.DistinctClasses
import SdkSmith.Proofs.Client.Sdk.DocComments
import SdkSmith.Proofs.Client.Sdk.Placement
import SdkSmith.Proofs.Client.Sdk.SealedComments
import SdkSmith.Proofs.Declared
import SdkSmith.Proofs.Document.Reading
import SdkSmith.Proofs.Har.Captures
import SdkSmith.Proofs.Naming.FreshNames
import SdkSmith.Proofs.Naming.GivenNames
import SdkSmith.Proofs.Naming.Identifiers
import SdkSmith.Proofs.Naming.LegalNames
import SdkSmith.Proofs.Naming.NormalText
import SdkSmith.Proofs.Naming.Remembering
import SdkSmith.Proofs.Naming.Spellings
import SdkSmith.Proofs.OpenApi.BodyDefaults
import SdkSmith.Proofs.OpenApi.BodyFields
import SdkSmith.Proofs.OpenApi.Closed
import SdkSmith.Proofs.OpenApi.DistinctProperties
import SdkSmith.Proofs.OpenApi.Hoist.Bodies
import SdkSmith.Proofs.OpenApi.Hoist.BodyNames
import SdkSmith.Proofs.OpenApi.Hoist.FixedPoint
import SdkSmith.Proofs.OpenApi.Hoist.Hoard
import SdkSmith.Proofs.OpenApi.Hoist.Hoisting
import SdkSmith.Proofs.OpenApi.Hoist.Leftover
import SdkSmith.Proofs.OpenApi.Hoist.Nameless
import SdkSmith.Proofs.OpenApi.Hoist.Normal
import SdkSmith.Proofs.OpenApi.Hoist.Preserved
import SdkSmith.Proofs.OpenApi.Hoist.SchemaTree
import SdkSmith.Proofs.OpenApi.Hoist.Settle
import SdkSmith.Proofs.OpenApi.Hoist.Sharing
import SdkSmith.Proofs.OpenApi.Hoist.TableWalk
import SdkSmith.Proofs.OpenApi.Hoist.Walk
import SdkSmith.Proofs.OpenApi.Mentions
import SdkSmith.Proofs.OpenApi.Merge.Chains
import SdkSmith.Proofs.OpenApi.Merge.Conversion
import SdkSmith.Proofs.OpenApi.Merge.Following
import SdkSmith.Proofs.OpenApi.Merge.Inheritance
import SdkSmith.Proofs.OpenApi.Merge.Lineages
import SdkSmith.Proofs.OpenApi.Merge.Rules
import SdkSmith.Proofs.OpenApi.Overrides
import SdkSmith.Proofs.OpenApi.References
import SdkSmith.Proofs.OpenApi.Renamings
import SdkSmith.Proofs.OpenApi.Templates
import SdkSmith.Proofs.Output.FileTrees
import SdkSmith.Proofs.Output.Paths
import SdkSmith.Proofs.Output.Writing
import SdkSmith.Proofs.Php.Comments
import SdkSmith.Proofs.Php.ImportOrder
import SdkSmith.Proofs.Php.NamedClasses
import SdkSmith.Proofs.Php.Quoting
import SdkSmith.Proofs.Postman.FailingNodes
import SdkSmith.Proofs.Postman.FolderStack
import SdkSmith.Proofs.Postman.NodePaths
import SdkSmith.Proofs.Postman.UrlForms
import SdkSmith.Proofs.Postman.Visits
import SdkSmith.Proofs.Postman.WireKeys
import SdkSmith.Proofs.Runs
import SdkSmith.Proofs.TableLaws
import SdkSmith.Settings
import SdkSmith.Source
import SdkSmith.Table
import SdkSmith.Text.Blank
import SdkSmith.Text.Capital
import SdkSmith.Text.Lower
import SdkSmith.Text.Quoted
import SdkSmith.Text.Utf8
import SdkSmith.Toml.Lexeme
import SdkSmith.Toml.Node
import SdkSmith.Toml.Reader
import SdkSmith.Url.Address
import SdkSmith.Url.Basic
import SdkSmith.Url.Domain
import SdkSmith.Url.Fault
import SdkSmith.Url.Path
import SdkSmith.Url.Punycode
import SdkSmith.Url.Query
import SdkSmith.Yaml.Cursor
import SdkSmith.Yaml.Node
import SdkSmith.Yaml.Reader
import SdkSmith.Yaml.Scalar
import SdkSmith.Yaml.Token
import SdkSmith.Yaml.Value
