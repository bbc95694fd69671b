import TodoTracker.Anchor.Upkeep
import TodoTracker.Cli.Arguments
import TodoTracker.Cli.Options
import TodoTracker.Cli.Run
import TodoTracker.Edit.Commit
import TodoTracker.Edit.Queue
import TodoTracker.Files.Change
import TodoTracker.Git.Query
import TodoTracker.Git.Status
import TodoTracker.Json.Printer
import TodoTracker.Main
import TodoTracker.Proofs.Anchor.Confirmed
import TodoTracker.Scan.Decision
import TodoTracker.Scan.File
import TodoTracker.Scan.Mark
import TodoTracker.Scan.Report
import TodoTracker.Settings.Load
import TodoTracker.Settings.Read
import TodoTracker.Task.Load
import TodoTracker.Text.Line
import TodoTracker.Traversal.Walk
import TodoTracker.Proofs.Task.Anchors
import TodoTracker.Proofs.Task.Calls
import TodoTracker.Proofs.Anchor.Locate
import TodoTracker.Proofs.Anchor.Upkeep
import TodoTracker.Proofs.Anchor.Confirmed
import TodoTracker.Proofs.Pattern.TicketPattern
import TodoTracker.Proofs.Text.Search
import TodoTracker.Proofs.Text.Window
import TodoTracker.Proofs.Marker.TicketKey
import TodoTracker.Proofs.Comment.Insert
import TodoTracker.Proofs.Marker.SignalWord
import TodoTracker.Proofs.Marker.CarriedKey
import TodoTracker.Proofs.Marker.Move
import TodoTracker.Proofs.Marker.Insert
import TodoTracker.Proofs.Marker.Delimiter
import TodoTracker.Proofs.Marker.Writes
import TodoTracker.Proofs.Edit.KeyRemoval
import TodoTracker.Proofs.Edit.KeyInsertion
import TodoTracker.Proofs.Traversal.Run
import TodoTracker.Proofs.Scan.Counts
import TodoTracker.Proofs.Anchor.Sighted
import TodoTracker.Proofs.Scan.File
import TodoTracker.Proofs.Scan.Sighting
import TodoTracker.Proofs.Comment.Automaton
import TodoTracker.Proofs.Marker.KeyPlace
import TodoTracker.Proofs.Anchor.Reported
import TodoTracker.Proofs.Edit.InTurn
import TodoTracker.Proofs.Edit.Queue
import TodoTracker.Proofs.Scan.EditFree
import TodoTracker.Proofs.Scan.Edits
import TodoTracker.Proofs.Anchor.Standing
import TodoTracker.Proofs.Scan.Visit
import TodoTracker.Proofs.Scan.Run
import TodoTracker.Proofs.Scan.LastSighting
import TodoTracker.Proofs.Scan.Quiet
import TodoTracker.Proofs.Edit.Lines
import TodoTracker.Proofs.Scan.Creation
import TodoTracker.Proofs.Scan.Again
import TodoTracker.Proofs.Marker.Occurrence
import TodoTracker.Proofs.Anchor.Sifted
import TodoTracker.Proofs.Anchor.Single
import TodoTracker.Proofs.Anchor.Rest
import TodoTracker.Proofs.Files.Rewrite
import TodoTracker.Proofs.Scan.Listing
import TodoTracker.Proofs.Anchor.Noted
import TodoTracker.Proofs.Scan.Outcome
import TodoTracker.Proofs.Scan.Effect
import TodoTracker.Proofs.Scan.Apart
import TodoTracker.Proofs.Scan.Progress
import TodoTracker.Proofs.Scan.InOrder
import TodoTracker.Proofs.Anchor.Verdicts
import TodoTracker.Proofs.Scan.AnyOrder
import TodoTracker.Proofs.Task.Outcomes
import TodoTracker.Proofs.Task.RoundTrip
import TodoTracker.Proofs.Marker.TicketEntry
import TodoTracker.Proofs.Scan.NamedTicket
import TodoTracker.Proofs.Scan.StoreFailure
import TodoTracker.Proofs.Scan.Settled
import TodoTracker.Proofs.Scan.DryRun
import TodoTracker.Proofs.Scan.Spared
import TodoTracker.Proofs.Task.Tally
import TodoTracker.Proofs.Anchor.Tally
import TodoTracker.Proofs.Scan.Tally
import TodoTracker.Proofs.Scan.Accounted
import TodoTracker.Proofs.Edit.Filled
import TodoTracker.Proofs.Scan.Foretold
import TodoTracker.Proofs.Task.Unsaved
import TodoTracker.Proofs.Anchor.Latest
import TodoTracker.Proofs.Scan.Cancelled
import TodoTracker.Proofs.Files.Landing
import TodoTracker.Proofs.Json.Merged
import TodoTracker.Proofs.Task.Elsewhere
import TodoTracker.Proofs.Task.Reopened
import TodoTracker.Proofs.Files.Regular
import TodoTracker.Proofs.Traversal.Course
import TodoTracker.Proofs.Traversal.Once
import TodoTracker.Proofs.Traversal.Selected
import TodoTracker.Proofs.Traversal.Found
import TodoTracker.Proofs.Traversal.Subdirectory
import TodoTracker.Proofs.Anchor.Followed
import TodoTracker.Proofs.Task.MintedOnce
import TodoTracker.Proofs.Anchor.Window
import TodoTracker.Proofs.Anchor.Interrupted
import TodoTracker.Proofs.Text.Utf8
import TodoTracker.Proofs.Text.Rejoined
import TodoTracker.Proofs.Edit.Recommitted
import TodoTracker.Proofs.Marker.Brackets
import TodoTracker.Proofs.Edit.Stripped
import TodoTracker.Proofs.Git.Quoted
import TodoTracker.Proofs.Marker.Tags
import TodoTracker.Proofs.Settings.Load
import TodoTracker.Proofs.Settings.Project
import TodoTracker.Proofs.Git.Status
import TodoTracker.Proofs.Edit.Woven
import TodoTracker.Proofs.Text.Preview
