import StyleImport.Candidates
import StyleImport.Command.Form
import StyleImport.Command.Reading
import StyleImport.Command.Run
import StyleImport.Console.Markup
import StyleImport.Console.Table
import StyleImport.Console.Wrapped
import StyleImport.Data.Basic
import StyleImport.Data.Entries
import StyleImport.Data.Format
import StyleImport.Data.Merge
import StyleImport.Data.Spellable
import StyleImport.Disk.Error
import StyleImport.Disk.Glob
import StyleImport.Disk.Lookup
import StyleImport.Disk.Pattern
import StyleImport.Disk.Tree
import StyleImport.Error
import StyleImport.Import.Interleaving
import StyleImport.Import.Locate
import StyleImport.Import.Plan
import StyleImport.Import.ReadOnce
import StyleImport.Import.Registration
import StyleImport.Import.Resolve
import StyleImport.Import.Session
import StyleImport.Import.Trace
import StyleImport.Import.World
import StyleImport.Journal.Clock
import StyleImport.Journal.Event
import StyleImport.Journal.Record
import StyleImport.Journal.Sink
import StyleImport.Journal.Template
import StyleImport.Json.Reader
import StyleImport.Json.Token
import StyleImport.Json.Writer
import StyleImport.Main
import StyleImport.Module.Identifier
import StyleImport.Module.Record
import StyleImport.Module.Registry
import StyleImport.Number.Decimal
import StyleImport.Number.Double
import StyleImport.Number.Rounded
import StyleImport.Path.Collapsed
import StyleImport.Path.Lexical
import StyleImport.Proofs.Candidates.Descending
import StyleImport.Proofs.Candidates.Location
import StyleImport.Proofs.Candidates.Narrowed
import StyleImport.Proofs.Candidates.Order
import StyleImport.Proofs.Candidates.Respelled
import StyleImport.Proofs.Data.Layered
import StyleImport.Proofs.Disk.Agreement
import StyleImport.Proofs.Disk.Appended
import StyleImport.Proofs.Disk.Glob
import StyleImport.Proofs.Disk.Leads
import StyleImport.Proofs.Disk.Walk
import StyleImport.Proofs.Import.Alone
import StyleImport.Proofs.Import.Attribution
import StyleImport.Proofs.Import.Bindings
import StyleImport.Proofs.Import.Exchange
import StyleImport.Proofs.Import.FirstHit
import StyleImport.Proofs.Import.ImportOnce
import StyleImport.Proofs.Import.InModule
import StyleImport.Proofs.Import.Inherited
import StyleImport.Proofs.Import.Lookups
import StyleImport.Proofs.Import.NoTrace
import StyleImport.Proofs.Import.ReadProtocol
import StyleImport.Proofs.Import.Recognized
import StyleImport.Proofs.Import.Requester
import StyleImport.Proofs.Import.Routing
import StyleImport.Proofs.Import.SameImport
import StyleImport.Proofs.Import.Separators
import StyleImport.Proofs.Import.StandardRun
import StyleImport.Proofs.Import.Suffixes
import StyleImport.Proofs.Journal.Lines
import StyleImport.Proofs.Journal.Started
import StyleImport.Proofs.Module.Grammar
import StyleImport.Proofs.Module.Names
import StyleImport.Proofs.Module.Nearest
import StyleImport.Proofs.Module.Remembered
import StyleImport.Proofs.Path.Directory
import StyleImport.Proofs.Path.FromRoot
import StyleImport.Proofs.Path.LastName
import StyleImport.Proofs.Path.NormalForm
import StyleImport.Proofs.Path.SamePath
import StyleImport.Proofs.Path.Spelled
import StyleImport.Proofs.Path.Way
import StyleImport.Proofs.Query.Confined
import StyleImport.Proofs.Query.Failures
import StyleImport.Proofs.Query.Joined
import StyleImport.Proofs.Query.Listing
import StyleImport.Proofs.Query.RootToken
import StyleImport.Proofs.Settings.Framed
import StyleImport.Proofs.Settings.Layers
import StyleImport.Proofs.Settings.Loadable
import StyleImport.Proofs.Settings.Skipped
import StyleImport.Proofs.Stylesheet.Literal
import StyleImport.Proofs.Stylesheet.Lookup
import StyleImport.Proofs.Stylesheet.Preserved
import StyleImport.Proofs.Uri.FromBase
import StyleImport.Proofs.Uri.Pieces
import StyleImport.Proofs.Uri.RoundTrip
import StyleImport.Proofs.Yaml.KeysOnce
import StyleImport.Query
import StyleImport.Sandbox
import StyleImport.Settings.Basic
import StyleImport.Settings.Checked
import StyleImport.Settings.Scopes
import StyleImport.Stylesheet.HostValue
import StyleImport.Stylesheet.Literal
import StyleImport.Stylesheet.Value
import StyleImport.Text.Basic
import StyleImport.Text.Printable
import StyleImport.Text.Quoted
import StyleImport.Text.Similar
import StyleImport.Text.Utf8
import StyleImport.Uri
import StyleImport.Yaml.Cursor
import StyleImport.Yaml.Element
import StyleImport.Yaml.Format
import StyleImport.Yaml.Read
import StyleImport.Yaml.Scalar
import StyleImport.Yaml.Scalars
import StyleImport.Yaml.Token
import StyleImport.Yaml.Write
