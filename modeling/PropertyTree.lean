import PropertyTree.Binary64
import PropertyTree.CommandLine
import PropertyTree.Config.Basic
import PropertyTree.Config.Codec
import PropertyTree.Config.Layers
import PropertyTree.Config.Schema
import PropertyTree.Decimal.Layout
import PropertyTree.Decimal.Shortest
import PropertyTree.Event.Basic
import PropertyTree.Event.Document
import PropertyTree.Event.Wire
import PropertyTree.Failure
import PropertyTree.Json.Basic
import PropertyTree.Json.Printer
import PropertyTree.Json.Reader
import PropertyTree.Keyed
import PropertyTree.Main
import PropertyTree.Path
import PropertyTree.Path.Codec
import PropertyTree.Proofs.Config.Resolution
import PropertyTree.Proofs.Config.RoundTrip
import PropertyTree.Proofs.Event.Expansion
import PropertyTree.Proofs.Event.NormalForm
import PropertyTree.Proofs.Event.Reading
import PropertyTree.Proofs.Event.Snapshot
import PropertyTree.Proofs.Except
import PropertyTree.Proofs.Keyed
import PropertyTree.Proofs.Number.Denotation
import PropertyTree.Proofs.Number.Normalization
import PropertyTree.Proofs.Path.Above
import PropertyTree.Proofs.Path.Ancestry
import PropertyTree.Proofs.Path.Dotted
import PropertyTree.Proofs.Path.Keys
import PropertyTree.Proofs.Schema.Building
import PropertyTree.Proofs.Schema.Defaults
import PropertyTree.Proofs.Schema.Entry
import PropertyTree.Proofs.Schema.PrefixFree
import PropertyTree.Proofs.Schema.Printing
import PropertyTree.Proofs.Session.Conflict
import PropertyTree.Proofs.Session.Conformance
import PropertyTree.Proofs.Session.Document
import PropertyTree.Proofs.Session.EntryPoints
import PropertyTree.Proofs.Session.Loading
import PropertyTree.Proofs.Session.Relay
import PropertyTree.Proofs.Session.Replay
import PropertyTree.Proofs.Session.Run
import PropertyTree.Proofs.Session.Subscriber
import PropertyTree.Proofs.Session.Unversioned
import PropertyTree.Proofs.Store.AllApart
import PropertyTree.Proofs.Store.Change
import PropertyTree.Proofs.Store.Convergence
import PropertyTree.Proofs.Store.Faults
import PropertyTree.Proofs.Store.Flattening
import PropertyTree.Proofs.Store.Held
import PropertyTree.Proofs.Store.InPlace
import PropertyTree.Proofs.Store.Independence
import PropertyTree.Proofs.Store.Interleaving
import PropertyTree.Proofs.Store.Isolation
import PropertyTree.Proofs.Store.LastWriter
import PropertyTree.Proofs.Store.Layout
import PropertyTree.Proofs.Store.LeafMap
import PropertyTree.Proofs.Store.LeafOrder
import PropertyTree.Proofs.Store.Leaves
import PropertyTree.Proofs.Store.Loading
import PropertyTree.Proofs.Store.Marker
import PropertyTree.Proofs.Store.Mirror
import PropertyTree.Proofs.Store.Positions
import PropertyTree.Proofs.Store.Pruning
import PropertyTree.Proofs.Store.Repetition
import PropertyTree.Proofs.Store.Revision
import PropertyTree.Proofs.Store.Run
import PropertyTree.Proofs.Store.Site
import PropertyTree.Proofs.Store.Slot
import PropertyTree.Proofs.Store.Views
import PropertyTree.Proofs.Subscription.Calling
import PropertyTree.Proofs.Subscription.Evolution
import PropertyTree.Proofs.Subscription.Handles
import PropertyTree.Proofs.Subscription.Hearing
import PropertyTree.Proofs.Subscription.Lifetimes
import PropertyTree.Proofs.Subscription.Requests
import PropertyTree.Proofs.Subscription.Steady
import PropertyTree.Proofs.Toml.Exchange
import PropertyTree.Replay
import PropertyTree.Schema.Basic
import PropertyTree.Schema.Builtin
import PropertyTree.Schema.Kind
import PropertyTree.Session
import PropertyTree.Store.Apply
import PropertyTree.Store.Basic
import PropertyTree.Store.Snapshot
import PropertyTree.Store.Tree
import PropertyTree.Subscription.Pass
import PropertyTree.Subscription.Registry
import PropertyTree.Text.Blank
import PropertyTree.Text.Lines
import PropertyTree.Toml.Datetime
import PropertyTree.Toml.Draft
import PropertyTree.Toml.Printer
import PropertyTree.Toml.Reader
import PropertyTree.Toml.Text
import PropertyTree.Toml.Value
import PropertyTree.Value
import PropertyTree.Version
