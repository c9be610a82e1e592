import StackLang.Decimal.Layout
import StackLang.Decimal.Shortest
import StackLang.Dictionary.Basic
import StackLang.Error
import StackLang.Event
import StackLang.Machine.Backtrace
import StackLang.Machine.Creation
import StackLang.Machine.Execution
import StackLang.Machine.Frames
import StackLang.Machine.Host
import StackLang.Machine.Operators
import StackLang.Machine.Registration
import StackLang.Machine.Scopes
import StackLang.Machine.State
import StackLang.Name
import StackLang.OverloadArena
import StackLang.OverloadTree
import StackLang.Pool.Basic
import StackLang.Pool.Boxed
import StackLang.Pool.Numbered
import StackLang.Proofs.Control.Advancing
import StackLang.Proofs.Control.Agreement
import StackLang.Proofs.Control.Backtraces
import StackLang.Proofs.Control.Callbacks
import StackLang.Proofs.Control.Causes
import StackLang.Proofs.Control.Congruence
import StackLang.Proofs.Control.Counting
import StackLang.Proofs.Control.Draining
import StackLang.Proofs.Control.Elements
import StackLang.Proofs.Control.Evolution
import StackLang.Proofs.Control.Fitting
import StackLang.Proofs.Control.Frames
import StackLang.Proofs.Control.Fresh
import StackLang.Proofs.Control.Integrity
import StackLang.Proofs.Control.Isolation
import StackLang.Proofs.Control.Layout
import StackLang.Proofs.Control.Leaving
import StackLang.Proofs.Control.Merging
import StackLang.Proofs.Control.Moving
import StackLang.Proofs.Control.Operators
import StackLang.Proofs.Control.Ordinary
import StackLang.Proofs.Control.Procedures
import StackLang.Proofs.Control.ReadOnly
import StackLang.Proofs.Control.Refusing
import StackLang.Proofs.Control.Repeating
import StackLang.Proofs.Control.Reports
import StackLang.Proofs.Control.Rounds
import StackLang.Proofs.Control.Runs
import StackLang.Proofs.Control.Sessions
import StackLang.Proofs.Control.Settling
import StackLang.Proofs.Control.Silence
import StackLang.Proofs.Control.Simulation
import StackLang.Proofs.Control.Statements
import StackLang.Proofs.Control.StepMode
import StackLang.Proofs.Control.Steps
import StackLang.Proofs.Control.TailCalls
import StackLang.Proofs.Control.TailFrames
import StackLang.Proofs.Control.Unaware
import StackLang.Proofs.Control.Visiting
import StackLang.Proofs.Control.Waiting
import StackLang.Proofs.Control.Watching
import StackLang.Proofs.Overload.ArenaRequests
import StackLang.Proofs.Overload.ArenaShape
import StackLang.Proofs.Overload.Bindings
import StackLang.Proofs.Overload.Claiming
import StackLang.Proofs.Overload.Descending
import StackLang.Proofs.Overload.Drawings
import StackLang.Proofs.Overload.Grafting
import StackLang.Proofs.Overload.Listings
import StackLang.Proofs.Overload.LongestMatch
import StackLang.Proofs.Overload.Names
import StackLang.Proofs.Overload.Refusals
import StackLang.Proofs.Overload.Registered
import StackLang.Proofs.Overload.Registering
import StackLang.Proofs.Overload.Requests
import StackLang.Proofs.Overload.Selection
import StackLang.Proofs.Ownership.Circles
import StackLang.Proofs.Ownership.Clearing
import StackLang.Proofs.Ownership.DepthFirst
import StackLang.Proofs.Ownership.Flags
import StackLang.Proofs.Ownership.Liveness
import StackLang.Proofs.Ownership.Reachability
import StackLang.Proofs.Ownership.Writes
import StackLang.Proofs.Plain
import StackLang.Proofs.Pool.Accounting
import StackLang.Proofs.Pool.Custody
import StackLang.Proofs.Pool.FreeChain
import StackLang.Proofs.Pool.Operations
import StackLang.Proofs.Pool.Reserving
import StackLang.Proofs.Storage.Assets
import StackLang.Proofs.Storage.Books
import StackLang.Proofs.Storage.Contents
import StackLang.Proofs.Storage.Counts
import StackLang.Proofs.Storage.Making
import StackLang.Proofs.Storage.Placing
import StackLang.Proofs.Storage.Programs
import StackLang.Proofs.Storage.Releasing
import StackLang.Proofs.Storage.Slots
import StackLang.Proofs.Storage.Stock
import StackLang.Proofs.Store.Accumulating
import StackLang.Proofs.Store.Bindings
import StackLang.Proofs.Store.Following
import StackLang.Proofs.Store.Merging
import StackLang.Proofs.Store.Rendering
import StackLang.Proofs.Store.Resolving
import StackLang.Proofs.Store.RoundTrip
import StackLang.Proofs.Store.Tables
import StackLang.Proofs.Store.Unread
import StackLang.Stack
import StackLang.Storage.Placement
import StackLang.Storage.Release
import StackLang.Storage.Slots
import StackLang.Storage.ValuePools
import StackLang.Storage.Workspace
import StackLang.Store.Access
import StackLang.Store.Basic
import StackLang.Store.Build
import StackLang.Store.Census
import StackLang.Store.Ownership
import StackLang.Store.Render
import StackLang.Store.Usage
import StackLang.Store.Write
import StackLang.Text.Blank
import StackLang.Text.Buffer
import StackLang.Text.Column
import StackLang.Text.LossyUtf8
import StackLang.Text.Quoted
import StackLang.Token.Basic
import StackLang.Token.Draft
import StackLang.Token.Equality
import StackLang.Token.Holding
import StackLang.Token.Kind
import StackLang.Token.Ownership
import StackLang.Token.Render
import StackLang.Token.Slot
import StackLang.TypeTag
