import Lifecycle.Args
import Lifecycle.Args.Canonical
import Lifecycle.Channel
import Lifecycle.Command
import Lifecycle.Config
import Lifecycle.Decision
import Lifecycle.Dispatcher
import Lifecycle.Dispatcher.Builder
import Lifecycle.Event
import Lifecycle.Failure
import Lifecycle.Gate
import Lifecycle.Handler
import Lifecycle.Handler.Script
import Lifecycle.History
import Lifecycle.Json
import Lifecycle.Json.Fault
import Lifecycle.Json.Members
import Lifecycle.Json.Numeral
import Lifecycle.Json.Reader
import Lifecycle.Json.Scan
import Lifecycle.Json.Skip
import Lifecycle.Json.Text
import Lifecycle.Json.Value
import Lifecycle.Log
import Lifecycle.Machine
import Lifecycle.Machine.Quiet
import Lifecycle.Machine.Run
import Lifecycle.Machine.Step
import Lifecycle.Number.Binary64
import Lifecycle.Number.Shortest
import Lifecycle.Policy
import Lifecycle.Proofs.Abandonment
import Lifecycle.Proofs.Account
import Lifecycle.Proofs.Acts
import Lifecycle.Proofs.Admission
import Lifecycle.Proofs.Agreement
import Lifecycle.Proofs.Answers
import Lifecycle.Proofs.Approach
import Lifecycle.Proofs.Attended
import Lifecycle.Proofs.Breakdown
import Lifecycle.Proofs.Change
import Lifecycle.Proofs.ChannelFailure
import Lifecycle.Proofs.ChannelOrder
import Lifecycle.Proofs.Choices
import Lifecycle.Proofs.Course
import Lifecycle.Proofs.Documents
import Lifecycle.Proofs.Effects
import Lifecycle.Proofs.Entries
import Lifecycle.Proofs.Envelopes
import Lifecycle.Proofs.Fields
import Lifecycle.Proofs.Flow
import Lifecycle.Proofs.Frames
import Lifecycle.Proofs.Growth
import Lifecycle.Proofs.Heard
import Lifecycle.Proofs.Journal
import Lifecycle.Proofs.Labels
import Lifecycle.Proofs.Latest
import Lifecycle.Proofs.Lawful
import Lifecycle.Proofs.Linearization
import Lifecycle.Proofs.Locality
import Lifecycle.Proofs.Lockstep
import Lifecycle.Proofs.Newest
import Lifecycle.Proofs.Observers
import Lifecycle.Proofs.Ordinary
import Lifecycle.Proofs.Outcomes
import Lifecycle.Proofs.Outlines
import Lifecycle.Proofs.Overtaking
import Lifecycle.Proofs.Passage
import Lifecycle.Proofs.Passing
import Lifecycle.Proofs.Prescription
import Lifecycle.Proofs.Procession
import Lifecycle.Proofs.Reading
import Lifecycle.Proofs.Records
import Lifecycle.Proofs.Recovering
import Lifecycle.Proofs.Registrations
import Lifecycle.Proofs.Replay
import Lifecycle.Proofs.Replies
import Lifecycle.Proofs.Results
import Lifecycle.Proofs.RoundTrip
import Lifecycle.Proofs.Routes
import Lifecycle.Proofs.Scene
import Lifecycle.Proofs.Sessions
import Lifecycle.Proofs.Settings
import Lifecycle.Proofs.Story
import Lifecycle.Proofs.Tableau
import Lifecycle.Proofs.Tickets
import Lifecycle.Proofs.Tokens
import Lifecycle.Proofs.Torn
import Lifecycle.Proofs.Truncation
import Lifecycle.Proofs.Turns
import Lifecycle.Proofs.Twins
import Lifecycle.Proofs.Uncleared
import Lifecycle.Proofs.Undisturbed
import Lifecycle.Proofs.Unnoticed
import Lifecycle.Proofs.Unobserved
import Lifecycle.Proofs.Variants
import Lifecycle.Proofs.Visits
import Lifecycle.Proofs.Waiting
import Lifecycle.Proofs.Ways
import Lifecycle.Proofs.Worker
import Lifecycle.Proofs.Writes
import Lifecycle.Recording
import Lifecycle.Registry
import Lifecycle.Result
import Lifecycle.Router
import Lifecycle.Session
import Lifecycle.Session.Setup
import Lifecycle.Sink
import Lifecycle.State
import Lifecycle.Status
import Lifecycle.Text.Blank
import Lifecycle.Text.Hidden
import Lifecycle.Text.Quoted
import Lifecycle.Text.Utf8
import Lifecycle.Wire
