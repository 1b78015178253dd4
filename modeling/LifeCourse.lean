import LifeCourse.Condition.Basic
import LifeCourse.Condition.Expr
import LifeCourse.Condition.Parser
import LifeCourse.Condition.Token
import LifeCourse.Document.Decoder
import LifeCourse.Document.Defect
import LifeCourse.Document.Json
import LifeCourse.Document.Json.Decoder
import LifeCourse.Document.Nesting
import LifeCourse.Document.Ron.Decoder
import LifeCourse.Document.Ron.Header
import LifeCourse.Document.Ron.Literal
import LifeCourse.Document.Ron.Scanner
import LifeCourse.Draft.Basic
import LifeCourse.Draft.Build
import LifeCourse.Draft.Fault
import LifeCourse.Draft.Loading
import LifeCourse.Draft.Reading
import LifeCourse.Failure
import LifeCourse.Life.Chain
import LifeCourse.Life.Course
import LifeCourse.Life.Judgement
import LifeCourse.Life.Ledger
import LifeCourse.Life.Request
import LifeCourse.Life.Resolution
import LifeCourse.Life.Session
import LifeCourse.Life.Tracker
import LifeCourse.Lint.Command
import LifeCourse.Lint.Issue
import LifeCourse.Lint.Report
import LifeCourse.Main
import LifeCourse.Number.Decimal
import LifeCourse.Number.Range
import LifeCourse.Number.Shortest
import LifeCourse.Person
import LifeCourse.Proofs.Condition.Cut
import LifeCourse.Proofs.Condition.Grammar
import LifeCourse.Proofs.Condition.Parentheses
import LifeCourse.Proofs.Condition.Writing
import LifeCourse.Proofs.Draft.Building
import LifeCourse.Proofs.Draft.Filters
import LifeCourse.Proofs.Draft.Reordering
import LifeCourse.Proofs.Draft.ShortForms
import LifeCourse.Proofs.Draft.Weights
import LifeCourse.Proofs.Life.Birth
import LifeCourse.Proofs.Life.Chains
import LifeCourse.Proofs.Life.Checkpoints
import LifeCourse.Proofs.Life.Choosing
import LifeCourse.Proofs.Life.Chronicle
import LifeCourse.Proofs.Life.Clock
import LifeCourse.Proofs.Life.Depth
import LifeCourse.Proofs.Life.Ending
import LifeCourse.Proofs.Life.Enumerated
import LifeCourse.Proofs.Life.EventLog
import LifeCourse.Proofs.Life.Extremes
import LifeCourse.Proofs.Life.Forgetting
import LifeCourse.Proofs.Life.Frame
import LifeCourse.Proofs.Life.Happenings
import LifeCourse.Proofs.Life.Harmony
import LifeCourse.Proofs.Life.Impact
import LifeCourse.Proofs.Life.Judging
import LifeCourse.Proofs.Life.Lookups
import LifeCourse.Proofs.Life.Moments
import LifeCourse.Proofs.Life.Overlays
import LifeCourse.Proofs.Life.Pages
import LifeCourse.Proofs.Life.Persistence
import LifeCourse.Proofs.Life.Pruning
import LifeCourse.Proofs.Life.Refusals
import LifeCourse.Proofs.Life.Replacement
import LifeCourse.Proofs.Life.Score
import LifeCourse.Proofs.Life.Selection
import LifeCourse.Proofs.Life.Settling
import LifeCourse.Proofs.Life.Stages
import LifeCourse.Proofs.Life.TalentSet
import LifeCourse.Proofs.Life.Thresholds
import LifeCourse.Proofs.Life.Triggers
import LifeCourse.Proofs.Life.Years
import LifeCourse.Proofs.Lint.Replacements
import LifeCourse.Proofs.Lint.Rubrics
import LifeCourse.Proofs.Lint.Verdict
import LifeCourse.Proofs.Number.Rounding
import LifeCourse.Proofs.Outcome
import LifeCourse.Proofs.Random.Drawing
import LifeCourse.Proofs.Random.Shares
import LifeCourse.Proofs.Rules.Coherence
import LifeCourse.Proofs.Rules.Enumeration
import LifeCourse.Proofs.Rules.Grading
import LifeCourse.Proofs.Rules.Layers
import LifeCourse.Proofs.Rules.Merging
import LifeCourse.Proofs.Rules.Pruned
import LifeCourse.Proofs.Rules.References
import LifeCourse.Proofs.Rules.Representation
import LifeCourse.Proofs.Store
import LifeCourse.Random.Keystream
import LifeCourse.Random.Source
import LifeCourse.Rules.Achievement
import LifeCourse.Rules.Age
import LifeCourse.Rules.Entity
import LifeCourse.Rules.Event
import LifeCourse.Rules.Rubric
import LifeCourse.Rules.Ruleset
import LifeCourse.Rules.Settings
import LifeCourse.Rules.Talent
import LifeCourse.Stat
import LifeCourse.Store
import LifeCourse.Table
import LifeCourse.Text.Blank
import LifeCourse.Text.Printable
import LifeCourse.Text.Quoted
import LifeCourse.Text.Split
