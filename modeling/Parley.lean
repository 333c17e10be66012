import Parley.Action
import Parley.Call.Agent
import Parley.Call.Basic
import Parley.Call.Duet
import Parley.Call.Negotiation
import Parley.Call.Network
import Parley.Call.Station
import Parley.Call.Step
import Parley.Chat
import Parley.Client.Basic
import Parley.Client.Inbound
import Parley.Client.Manager
import Parley.Client.Rehearsal
import Parley.Client.Supervisor
import Parley.Color
import Parley.Config
import Parley.Decimal.Binary
import Parley.Decimal.Shortest
import Parley.Event.Basic
import Parley.Event.Payload
import Parley.Frame.Basic
import Parley.Frame.Codec
import Parley.Json.Canonical
import Parley.Json.Grammar
import Parley.Json.Number
import Parley.Json.Printer
import Parley.Json.Record
import Parley.Json.Token
import Parley.Json.Tree
import Parley.Json.Value
import Parley.Link
import Parley.Main
import Parley.Marker
import Parley.Marker.Disk
import Parley.Media.Connection
import Parley.Media.Constraints
import Parley.Media.Devices
import Parley.Media.Peer
import Parley.Media.Sdp
import Parley.Media.State
import Parley.Media.Track
import Parley.Message
import Parley.Notice
import Parley.Participant
import Parley.Proofs.Call.Agreement
import Parley.Proofs.Call.LocalMedia
import Parley.Proofs.Call.Candidates
import Parley.Proofs.Call.Coherence
import Parley.Proofs.Call.LinkOperations
import Parley.Proofs.Call.Dialogue
import Parley.Proofs.Call.Glare
import Parley.Proofs.Call.Lines
import Parley.Proofs.Call.Reactions
import Parley.Proofs.Call.Refinement
import Parley.Proofs.Call.Rounds
import Parley.Proofs.Call.Stance
import Parley.Proofs.Call.Steps
import Parley.Proofs.Call.Tracks
import Parley.Proofs.Call.Turns
import Parley.Reconnect
import Parley.Roster
import Parley.Router.Basic
import Parley.Router.Desk
import Parley.Router.Dispatch
import Parley.Router.Handle
import Parley.Session.Basic
import Parley.Session.Event
import Parley.Signal
import Parley.Table
import Parley.Terminal.Basic
import Parley.Terminal.Options
import Parley.Terminal.Rehearsal
import Parley.Terminal.Relay
import Parley.Terminal.Turns
import Parley.Text.Blank
import Parley.Text.Lines
import Parley.Text.Percent
import Parley.Text.Target
import Parley.Text.Utf8
import Parley.Ticket.Basic
import Parley.Ticket.Issuer
import Parley.Time.Stamp
import Parley.Proofs.Call.Control
import Parley.Proofs.Call.ConnectionHistory
import Parley.Proofs.Call.CandidateFlow
import Parley.Proofs.Call.Withdrawals
import Parley.Proofs.Call.Accounts
import Parley.Proofs.Call.Rollback
import Parley.Proofs.Call.Phases
import Parley.Proofs.Frame.Segments
import Parley.Proofs.Frame.Grammar
import Parley.Proofs.Frame.Buffer
import Parley.Proofs.Frame.RoundTrip
import Parley.Proofs.Frame.Canonical
import Parley.Proofs.Frame.Cuts
import Parley.Proofs.Call.Renegotiation
import Parley.Proofs.Json.Literals
import Parley.Proofs.Json.Machine
import Parley.Proofs.Json.Integers
import Parley.Proofs.Json.Scanning
import Parley.Proofs.Json.Printing
import Parley.Proofs.Json.Kept
import Parley.Proofs.Json.Records
import Parley.Proofs.Event.Records
import Parley.Proofs.Event.RoundTrip
import Parley.Proofs.Client.Delivery
import Parley.Proofs.Client.Moves
import Parley.Proofs.Alternation
import Parley.Proofs.Client.Conduct
import Parley.Proofs.Client.Persistence
import Parley.Proofs.Client.Logout
import Parley.Proofs.Client.Sessions
import Parley.Proofs.Frame.Fitting
import Parley.Proofs.Client.Readings
import Parley.Proofs.Client.Membership
import Parley.Proofs.Router.Entries
import Parley.Proofs.Router.Handles
import Parley.Proofs.Router.Sheet
import Parley.Proofs.Client.Register
import Parley.Proofs.Client.Socket
import Parley.Proofs.Client.Life
import Parley.Proofs.Client.Backlog
import Parley.Proofs.Call.Confinement
import Parley.Proofs.Call.Inputs
import Parley.Proofs.Call.Pings
import Parley.Proofs.Client.Streams
import Parley.Proofs.Call.Likeness
import Parley.Proofs.Call.Lockstep
import Parley.Proofs.Call.Isolation
import Parley.Proofs.Listings
import Parley.Proofs.Markers
import Parley.Proofs.Call.MediaOperations
import Parley.Proofs.Call.Ledger
import Parley.Proofs.Call.Teardown
import Parley.Proofs.Call.Views
import Parley.Proofs.Call.ConnectionInvariants
import Parley.Proofs.Call.FirstRound
import Parley.Proofs.Call.Publication
import Parley.Proofs.Call.Published
import Parley.Proofs.Call.Receipts
import Parley.Proofs.Call.Uncontested
import Parley.Proofs.Call.Reception
import Parley.Proofs.Call.Silence
import Parley.Proofs.Outages
import Parley.Proofs.Roster.Merging
import Parley.Proofs.Roster.History
import Parley.Proofs.Chat
import Parley.Proofs.Session.History
import Parley.Proofs.Client.Requests
import Parley.Proofs.Roster.Convergence
import Parley.Proofs.Roster.Connections
import Parley.Proofs.Text.Lines
import Parley.Proofs.Text.Percent
import Parley.Proofs.Ticket
import Parley.Router.Forum
import Parley.Proofs.Router.Forum
import Parley.Proofs.Media.Procedures
import Parley.Proofs.Media.Signaling
import Parley.Proofs.Media.Announcements
import Parley.Proofs.Terminal.Handling
import Parley.Proofs.Terminal.Runs
import Parley.Proofs.Terminal.Standing
import Parley.Proofs.Terminal.Lines
import Parley.Proofs.Terminal.Screen
import Parley.Proofs.Terminal.Conversation
import Parley.Proofs.Client.Channel
import Parley.Proofs.Client.Succession
