import ReactiveTemplate.Main
import ReactiveTemplate.Markup.Traversal
import ReactiveTemplate.Session
import ReactiveTemplate.Proofs.RunningOrder
import ReactiveTemplate.Proofs.ReactivePass
import ReactiveTemplate.Proofs.Extents.Cursor
import ReactiveTemplate.Proofs.Extents.Parser
import ReactiveTemplate.Proofs.Extents.Parts
import ReactiveTemplate.Proofs.Extents.Expressions
import ReactiveTemplate.Proofs.Extents.Statements
import ReactiveTemplate.Proofs.Announcements
import ReactiveTemplate.Proofs.Instrumentation
import ReactiveTemplate.Proofs.Markup.Grammar
import ReactiveTemplate.Proofs.Markup.Recognition
import ReactiveTemplate.Proofs.Scopes.Visits
import ReactiveTemplate.Proofs.Scopes.Agreement
import ReactiveTemplate.Proofs.Scopes.Confinement
import ReactiveTemplate.Proofs.Lifecycle.DomTree
import ReactiveTemplate.Proofs.Lifecycle.Variables
import ReactiveTemplate.Proofs.Lifecycle.Markup
import ReactiveTemplate.Proofs.Notification.Handlers
import ReactiveTemplate.Proofs.Notification.Changes
import ReactiveTemplate.Proofs.ChangeSets
import ReactiveTemplate.Proofs.Wholeness.Contracts
import ReactiveTemplate.Proofs.Wholeness.Parts
import ReactiveTemplate.Proofs.Wholeness.Expressions
import ReactiveTemplate.Proofs.Wholeness.Programs
import ReactiveTemplate.Proofs.Sessions.Stages
import ReactiveTemplate.Proofs.Sessions.Runs
import ReactiveTemplate.Proofs.Lifting
import ReactiveTemplate.Proofs.Reordering
import ReactiveTemplate.Proofs.Sessions.Regeneration
import ReactiveTemplate.Proofs.Extraction
import ReactiveTemplate.Proofs.Placement
import ReactiveTemplate.Proofs.Naming
import ReactiveTemplate.Proofs.CalledNames
import ReactiveTemplate.Proofs.Slices
import ReactiveTemplate.Proofs.WrittenNames
import ReactiveTemplate.Proofs.Updates
import ReactiveTemplate.Proofs.Scopes.Sequence
import ReactiveTemplate.Proofs.Scopes.Rules
import ReactiveTemplate.Proofs.Scopes.Places
import ReactiveTemplate.Proofs.Scopes.Homes
import ReactiveTemplate.Proofs.Scopes.Readings
import ReactiveTemplate.Proofs.Circles
import ReactiveTemplate.Proofs.Segments
import ReactiveTemplate.Proofs.Embedding.Ends
import ReactiveTemplate.Proofs.Embedding.Groups
import ReactiveTemplate.Proofs.Embedding.LastTokens
import ReactiveTemplate.Proofs.Embedding.Offsets
import ReactiveTemplate.Proofs.Embedding.Operands
import ReactiveTemplate.Proofs.Identifiers
import ReactiveTemplate.Proofs.Markup.Progress
import ReactiveTemplate.Proofs.Positions
import ReactiveTemplate.Proofs.Literals.Statements
