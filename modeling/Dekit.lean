import Dekit.Vt.KittyForms
import Dekit.Term.Rendition
import Dekit.Term.Scrollback
import Dekit.Term.KeyNames
import Dekit.Config.Cfg
import Dekit.Subs
import Dekit.Reaper
import Dekit.CopyMode
import Dekit.Lockfile
import Dekit.Term.SixelCanvas
import Dekit.Protocol.Conn
import Dekit.Argv
import Dekit.Merge
import Dekit.Written
import Dekit.Enrolling
import Dekit.QuitBound
import Dekit.OneChild
import Dekit.Telling
import Dekit.Term.Unfailing
import Dekit.Term.FastText
import Dekit.Snapshot
import Dekit.Lib.FiniteMap
import Dekit.Lib.Dag
import Dekit.Lib.Worklist
import Dekit.Lib.Tally
import Dekit.Lib.Fold
import Dekit.Lib.Load
import Dekit.TaskPath
import Dekit.TaskSpec
import Dekit.Task
import Dekit.Namespace
import Dekit.Message
import Dekit.View
import Dekit.ViewOps
import Dekit.Shape
import Dekit.Caches
import Dekit.Frames
import Dekit.FixedPoint
import Dekit.Graph
import Dekit.Lifecycle
import Dekit.Reconcile
import Dekit.Refine
import Dekit.Propagation
import Dekit.Sound
import Dekit.Settle
import Dekit.Selection
import Dekit.Intent
import Dekit.Registry
import Dekit.Batch
import Dekit.Freeze
import Dekit.Command
import Dekit.Kernel
import Dekit.Install
import Dekit.Clocks
import Dekit.Ticks
import Dekit.Operation
import Dekit.Performed
import Dekit.Update
import Dekit.Commands
import Dekit.Freezing
import Dekit.Turns
import Dekit.Gate
import Dekit.Oracle
import Dekit.Guarantees
import Dekit.Quits
import Dekit.QuitRuns
import Dekit.Timers
import Dekit.Records
import Dekit.Edits
import Dekit.Writing
import Dekit.Drives
import Dekit.Orders
import Dekit.Registers
import Dekit.Changes
import Dekit.Recording
import Dekit.Diagram
import Dekit.Lib.Assoc
import Dekit.Spots
import Dekit.Tidy
import Dekit.Moving
import Dekit.Homes
import Dekit.Queued
import Dekit.Listed
import Dekit.Located
import Dekit.Waits
import Dekit.Globs
import Dekit.Unseen
import Dekit.Skipping
import Dekit.Doomed
import Dekit.Starts
import Dekit.Standstill
import Dekit.Listing
import Dekit.Globbing
import Dekit.Transfer
import Dekit.Placing
import Dekit.Vt.Emit
import Dekit.Hearing
import Dekit.Hushed
import Dekit.Bearing
import Dekit.Edges
import Dekit.Updating
import Dekit.Verbs
import Dekit.Lib.Slice
import Dekit.Term.Cell
import Dekit.Term.Csi
import Dekit.Epochs
import Dekit.Budget
import Dekit.Console.Runs
import Dekit.Config.Startup
