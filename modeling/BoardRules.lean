import BoardRules.Behaviour
import BoardRules.Board.Basic
import BoardRules.Board.Integrity
import BoardRules.Board.Storage
import BoardRules.Catalogue
import BoardRules.Delta
import BoardRules.Geometry.Seat
import BoardRules.Geometry.Square
import BoardRules.Guard.Basic
import BoardRules.Guard.Evaluation
import BoardRules.Guard.Reader
import BoardRules.Guard.Syntax
import BoardRules.Guard.Value
import BoardRules.Identity
import BoardRules.Issue
import BoardRules.Json.Basic
import BoardRules.Json.Binary64
import BoardRules.Json.Reader
import BoardRules.Json.Wire
import BoardRules.Json.Writer
import BoardRules.Monitor
import BoardRules.Nation.Data
import BoardRules.Nation.Forest
import BoardRules.Nation.Storage
import BoardRules.Piece
import BoardRules.Player
import BoardRules.Proofs.Board.Placement
import BoardRules.Proofs.Board.Precedence
import BoardRules.Proofs.Board.Table
import BoardRules.Proofs.Delta.Slots
import BoardRules.Proofs.Search.Chain
import BoardRules.Proofs.Search.Effect
import BoardRules.Proofs.Search.Enumeration
import BoardRules.Proofs.Search.Extension
import BoardRules.Proofs.Search.Occupancy
import BoardRules.Proofs.Search.Precedence
import BoardRules.Proofs.Search.Reaction
import BoardRules.Proofs.Search.Replay
import BoardRules.Proofs.Search.Story
import BoardRules.Proofs.Session.Account
import BoardRules.Proofs.Session.Course
import BoardRules.Proofs.Session.Forward
import BoardRules.Proofs.Session.Lapse
import BoardRules.Proofs.Session.Offer
import BoardRules.Proofs.Session.Perspective
import BoardRules.Proofs.Session.Run
import BoardRules.Proofs.Session.Settling
import BoardRules.Proofs.Session.Standing
import BoardRules.Proofs.Session.Turn
import BoardRules.Random.Generator
import BoardRules.Random.Stream
import BoardRules.Renewal
import BoardRules.Search.Analysis
import BoardRules.Search.Branch
import BoardRules.Search.Link
import BoardRules.Search.WorkList
import BoardRules.Session
import BoardRules.Settings
import BoardRules.Step.Basic
import BoardRules.Step.Condition
import BoardRules.Step.Form
import BoardRules.Step.Move
import BoardRules.Step.Record
import BoardRules.Text.Blank
import BoardRules.Text.Numeral
import BoardRules.Proofs.Guise.Basic
import BoardRules.Proofs.Guise.Lookup
import BoardRules.Proofs.Guise.Guard
import BoardRules.Proofs.Guise.Branch
import BoardRules.Proofs.Guise.Search
import BoardRules.Proofs.Guise.Analysis
import BoardRules.Proofs.Guise.Renamed
import BoardRules.Proofs.Guise.Turned
import BoardRules.Proofs.Guise.Play
import BoardRules.Proofs.Search.Guarded
import BoardRules.Proofs.Nation.Nesting
import BoardRules.Proofs.Guard.Grammar
import BoardRules.Proofs.Guard.Reading
import BoardRules.Proofs.Session.Reload
import BoardRules.Proofs.Guard.Parsing
import BoardRules.Proofs.Random.Generator
import BoardRules.Proofs.Session.Playout
import BoardRules.Proofs.Session.Decided
import BoardRules.Proofs.Session.Resumption
import BoardRules.Proofs.Session.Selection
import BoardRules.Proofs.Json.Rereading
import BoardRules.Proofs.Board.Rereading
import BoardRules.Proofs.Json.Exact
import BoardRules.Proofs.Board.Records
import BoardRules.Proofs.Session.Mapping
import BoardRules.Proofs.Search.Count
import BoardRules.Proofs.Session.Tally
import BoardRules.Proofs.Session.Fallen
import BoardRules.Proofs.Search.Frame
import BoardRules.Proofs.Geometry.Step
import BoardRules.Proofs.Search.Ray
import BoardRules.Proofs.Search.ExactRay
import BoardRules.Proofs.Renewal.Relabelling
import BoardRules.Proofs.Renewal.Loading
import BoardRules.Proofs.Renewal.Draws
import BoardRules.Proofs.Renewal.Board
import BoardRules.Proofs.Nation.Reach
import BoardRules.Proofs.Nation.Ownership
import BoardRules.Proofs.Reordering.Board
import BoardRules.Proofs.Reordering.Search
import BoardRules.Proofs.Reordering.Analysis
import BoardRules.Proofs.Search.Ambiguity
import BoardRules.Proofs.Session.Idle
import BoardRules.Proofs.Search.Retelling
import BoardRules.Proofs.Guard.Compilation
import BoardRules.Proofs.Nation.Planting
import BoardRules.Proofs.Board.Validation
import BoardRules.Proofs.Session.Check
import BoardRules.Proofs.Delta.Merging
import BoardRules.Proofs.Guard.Sight
import BoardRules.Proofs.Random.Forks
import BoardRules.Proofs.Nation.Tidy
import BoardRules.Proofs.Nation.Editing
import BoardRules.Proofs.Geometry.Frame
import BoardRules.Proofs.Text.Numeral
import BoardRules.Proofs.Guard.Values
