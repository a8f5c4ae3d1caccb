import ReactiveViews.Main
import ReactiveViews.Proofs.Expr.Nesting
import ReactiveViews.Proofs.Live.Batch
import ReactiveViews.Proofs.Value.Links
import ReactiveViews.Proofs.Live.Comparison
import ReactiveViews.Proofs.Live.Drawing
import ReactiveViews.Proofs.Live.Elements
import ReactiveViews.Proofs.Live.Following
import ReactiveViews.Proofs.Live.Outlines
import ReactiveViews.Proofs.Live.Refreshing
import ReactiveViews.Proofs.Live.Updating
import ReactiveViews.Proofs.Expr.Layout
import ReactiveViews.Proofs.Expr.Terms
import ReactiveViews.Proofs.Expr.Compilation
import ReactiveViews.Proofs.Expr.Spans
import ReactiveViews.Proofs.Live.Interpolations
import ReactiveViews.Proofs.Live.Meaning
import ReactiveViews.Proofs.Live.Building
import ReactiveViews.Proofs.Live.UpToDate
import ReactiveViews.Proofs.Live.Frames
import ReactiveViews.Proofs.Live.Items
import ReactiveViews.Proofs.Live.Attributes
import ReactiveViews.Proofs.Live.FreshBuilds
import ReactiveViews.Proofs.Live.Glimpses
import ReactiveViews.Proofs.Live.Withdrawal
import ReactiveViews.Proofs.Live.Forest
import ReactiveViews.Proofs.Live.Kinship
import ReactiveViews.Proofs.Live.Laps
import ReactiveViews.Proofs.Live.Pairing
import ReactiveViews.Proofs.Live.Recurrence
import ReactiveViews.Proofs.Live.Settled
import ReactiveViews.Proofs.Template.Faults
import ReactiveViews.Proofs.Template.Keys
import ReactiveViews.Proofs.Live.Conditionals
import ReactiveViews.Proofs.Live.ListSlots
import ReactiveViews.Proofs.Live.Applications
import ReactiveViews.Proofs.Live.Selectors
import ReactiveViews.Proofs.Live.Failures
import ReactiveViews.Proofs.Live.Updaters
import ReactiveViews.Proofs.Live.Passes
import ReactiveViews.Proofs.Live.Aftermath
import ReactiveViews.Proofs.Live.Deepening
import ReactiveViews.Proofs.Expr.Continuations
import ReactiveViews.Proofs.Frame.Limits
import ReactiveViews.Proofs.Template.Tags
import ReactiveViews.Proofs.Live.Bystanders
import ReactiveViews.Proofs.Live.Calm
import ReactiveViews.Proofs.Live.Orders
import ReactiveViews.Proofs.Expr.Stack
import ReactiveViews.Proofs.Live.Sequences
import ReactiveViews.Proofs.Value.Circles
import ReactiveViews.Proofs.Live.Mounts
