import TaggedText.Text.Word
import TaggedText.Text.Blank
import TaggedText.Text.CaseFold
import TaggedText.Text.Quoted
import TaggedText.Text.Units
import TaggedText.Text.Line
import TaggedText.Fault
import TaggedText.Spans.Extremal
import TaggedText.Spans.Search
import TaggedText.Spans.Cluster
import TaggedText.Spans.Group
import TaggedText.Spans.Subtract
import TaggedText.Pattern.Scan
import TaggedText.Pattern.Reader
import TaggedText.Selection
import TaggedText.Query.Table
import TaggedText.Query.Tree
import TaggedText.Query.Plan
import TaggedText.Query.Scheduler
import TaggedText.Column
import TaggedText.Query
import TaggedText.Formula
import TaggedText.Shell.Console
import TaggedText.Shell.Options
import TaggedText.Main
import TaggedText.Proofs.Query.Answer
import TaggedText.Proofs.Query.Grammar
import TaggedText.Proofs.Query.Pieces
import TaggedText.Proofs.Query.Scheduler
import TaggedText.Proofs.Query.Spelling
import TaggedText.Proofs.Query.Projection
import TaggedText.Proofs.Spans.Order
import TaggedText.Proofs.Spans.Search
import TaggedText.Proofs.Tagging
import TaggedText.Proofs.Shell.Writing
import TaggedText.Proofs.Shell.Typing
import TaggedText.Proofs.Shell.Cursor
import TaggedText.Proofs.Shell.Script
import TaggedText.Proofs.Shell.Quoted
import TaggedText.Proofs.Shell.Continuation
import TaggedText.Proofs.Pattern.Bounds
import TaggedText.Proofs.Checked.Spans
import TaggedText.Proofs.Checked.Lists
import TaggedText.Proofs.Checked.Document
import TaggedText.Proofs.Checked.Fits
import TaggedText.Proofs.Checked.Column
import TaggedText.Proofs.Checked.Tagging
import TaggedText.Proofs.Query.Origin
import TaggedText.Proofs.Checked
import TaggedText.Proofs.Query.Join
import TaggedText.Proofs.Query.Extending
import TaggedText.Proofs.Query.Estimates
import TaggedText.Proofs.Selection.Combinations
import TaggedText.Proofs.Selection.Extended
import TaggedText.Proofs.Query.Union
import TaggedText.Proofs.Query.Flattening
import TaggedText.Proofs.Spans.Covering
import TaggedText.Proofs.Spans.Merging
import TaggedText.Proofs.Spans.Subtracting
import TaggedText.Proofs.Gaps
import TaggedText.Proofs.Offsets
import TaggedText.Proofs.Untagged
import TaggedText.Proofs.Text.Positions
import TaggedText.Proofs.Replacing
import TaggedText.Proofs.Spans.Fewer
import TaggedText.Proofs.Replacing.Strays
import TaggedText.Proofs.Pattern.Ways
import TaggedText.Proofs.Spans.Clustering
import TaggedText.Proofs.Pattern.Fields
import TaggedText.Proofs.Pattern.Lines
import TaggedText.Proofs.Columns
import TaggedText.Proofs.Columns.Tails
import TaggedText.Proofs.Painting
import TaggedText.Proofs.Pattern.Overlapped
import TaggedText.Proofs.Spans.Extremal
import TaggedText.Proofs.Spans.Categories
import TaggedText.Proofs.Spans.Groups
import TaggedText.Proofs.Spans.Placement
import TaggedText.Proofs.Sequences
import TaggedText.Proofs.Tiling
import TaggedText.Proofs.Query.Distance
import TaggedText.Proofs.Shell.Failure
