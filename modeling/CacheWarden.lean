import CacheWarden.Text.Blank
import CacheWarden.Text.Quoted
import CacheWarden.Json.Reader
import CacheWarden.Json.Writer
import CacheWarden.Yaml.Fault
import CacheWarden.Yaml.Gap
import CacheWarden.Yaml.Scalar
import CacheWarden.Yaml.Token
import CacheWarden.Yaml.Token.Name
import CacheWarden.Yaml.Token.Reader
import CacheWarden.Yaml.Node
import CacheWarden.Yaml.Plain
import CacheWarden.Stop
import CacheWarden.Span
import CacheWarden.Span.Reader
import CacheWarden.Span.Writer
import CacheWarden.Address
import CacheWarden.Address.Reader
import CacheWarden.Address.Writer
import CacheWarden.Settings
import CacheWarden.Settings.Decode
import CacheWarden.Settings.Reader
import CacheWarden.Settings.Schedule
import CacheWarden.Settings.Writer
import CacheWarden.FileTree
import CacheWarden.Settings.Lookup
import CacheWarden.Log
import CacheWarden.Log.Filter
import CacheWarden.Cache.Error
import CacheWarden.Cache.MapRegion
import CacheWarden.Cache.Region
import CacheWarden.Cache.Session
import CacheWarden.Event.DeadLetter
import CacheWarden.Event.Ingest
import CacheWarden.Event.Rules
import CacheWarden.Eviction.Counters
import CacheWarden.Eviction.Evictor
import CacheWarden.Service
import CacheWarden.Service.Closing
import CacheWarden.Service.Step
import CacheWarden.App
import CacheWarden.CommandLine
import CacheWarden.CommandLine.Reader
import CacheWarden.Exporter
import CacheWarden.Log.Writer
import CacheWarden.Program
import CacheWarden.Main
import CacheWarden.Proofs.Cache.Content
import CacheWarden.Proofs.Cache.Frame
import CacheWarden.Proofs.Cache.Operation
import CacheWarden.Proofs.Cache.Isolation
import CacheWarden.Proofs.Cache.Registration
import CacheWarden.Proofs.Cache.Registry
import CacheWarden.Proofs.Event.Call
import CacheWarden.Proofs.Event.Delivery
import CacheWarden.Proofs.Service.Turn
import CacheWarden.Proofs.Service.Moment
import CacheWarden.Proofs.Service.Loop
import CacheWarden.Proofs.Service.Deed
import CacheWarden.Proofs.Service.Beat
import CacheWarden.Proofs.Service.FixedDelay
import CacheWarden.Proofs.Eviction.Samples
import CacheWarden.Proofs.Eviction.Books
import CacheWarden.Proofs.Service.Account
import CacheWarden.Proofs.App.Life
import CacheWarden.Proofs.App.Feed
import CacheWarden.Proofs.App.DataLaw
import CacheWarden.Proofs.App.Startup
import CacheWarden.Proofs.App.Serving
import CacheWarden.Proofs.App.OneLoop
import CacheWarden.Proofs.Service.Closing
import CacheWarden.Proofs.Service.Trigger
import CacheWarden.Proofs.App.Shutdown
import CacheWarden.Proofs.Event.Telling
import CacheWarden.Proofs.Keyed
import CacheWarden.Proofs.Text.Numeral
import CacheWarden.Proofs.Text.Utf8
import CacheWarden.Proofs.Text.ByteOrder
import CacheWarden.Proofs.Span.Reading
import CacheWarden.Proofs.Span.RoundTrip
import CacheWarden.Proofs.Address.RoundTrip
import CacheWarden.Proofs.Yaml.Compact
import CacheWarden.Proofs.Yaml.Scalar
import CacheWarden.Proofs.Yaml.Scanning
import CacheWarden.Proofs.Yaml.Composing
import CacheWarden.Proofs.Settings.Document
import CacheWarden.Proofs.Settings.RoundTrip
import CacheWarden.Proofs.Json.Grammar
import CacheWarden.Proofs.Json.Byte
import CacheWarden.Proofs.Json.Series
import CacheWarden.Proofs.Json.Soundness
import CacheWarden.Proofs.Json.Completeness
import CacheWarden.Proofs.Event.Decoding
import CacheWarden.Proofs.Event.Echo
import CacheWarden.Proofs.Json.Tree
import CacheWarden.Proofs.Json.Writing
import CacheWarden.Proofs.Cache.FiniteMap
import CacheWarden.Proofs.Cache.Heap
import CacheWarden.Proofs.Cache.Objects
import CacheWarden.Proofs.Cache.Ownership
import CacheWarden.Proofs.Cache.Reader
import CacheWarden.Proofs.Service.Pace
import CacheWarden.Proofs.Settings.Acceptance
import CacheWarden.Proofs.App.Pace
import CacheWarden.Proofs.Event.Resubmission
import CacheWarden.Proofs.Decimal.Nearest
import CacheWarden.Proofs.Decimal.Interval
import CacheWarden.Proofs.Decimal.Shortest
import CacheWarden.Proofs.Meter.Series
import CacheWarden.Proofs.Meter.Recording
import CacheWarden.Proofs.FileTree.Trail
import CacheWarden.Proofs.Settings.Lookup
import CacheWarden.Proofs.Settings.Fields
import CacheWarden.Proofs.Settings.Layout
import CacheWarden.Proofs.Settings.Delay
