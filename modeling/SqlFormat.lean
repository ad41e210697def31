import SqlFormat.Main
import SqlFormat.Workload
import SqlFormat.Proofs.Format.Tokens
import SqlFormat.Proofs.Layout.Nesting
import SqlFormat.Proofs.Layout.Turn
import SqlFormat.Proofs.Layout.Blocks
import SqlFormat.Proofs.Layout.Alike
import SqlFormat.Proofs.Layout.View
import SqlFormat.Proofs.Layout.Alignment
import SqlFormat.Proofs.Layout.Anchors
import SqlFormat.Proofs.Layout.Bare
import SqlFormat.Proofs.Layout.Sheet
import SqlFormat.Proofs.Format.Aligned
import SqlFormat.Proofs.Layout.Quiet
import SqlFormat.Proofs.Layout.Depth
import SqlFormat.Proofs.Text.Reindent
import SqlFormat.Proofs.Files.Effect
import SqlFormat.Proofs.Layout.Join
import SqlFormat.Proofs.Layout.Closers
import SqlFormat.Proofs.Format.Colour
import SqlFormat.Proofs.Token.Caseless
import SqlFormat.Proofs.Token.Regap
import SqlFormat.Proofs.Format.Recase
import SqlFormat.Proofs.Format.Fit
import SqlFormat.Proofs.Groups.Stable
import SqlFormat.Proofs.Layout.Between
import SqlFormat.Proofs.Token.Recognition
import SqlFormat.Proofs.Token.Quoted
import SqlFormat.Proofs.Layout.EmptyLines
import SqlFormat.Proofs.Format.DollarQuotes
import SqlFormat.Proofs.Format.LineEnds
import SqlFormat.Proofs.Config.Search
import SqlFormat.Proofs.Token.Placeholder
import SqlFormat.Proofs.Config.Precedence
import SqlFormat.Proofs.Format.Detection
import SqlFormat.Proofs.Files.Collected
import SqlFormat.Proofs.Config.DialectNames
import SqlFormat.Proofs.Layout.Columns
import SqlFormat.Proofs.Token.Merge
import SqlFormat.Proofs.Layout.Partners
import SqlFormat.Proofs.Format.Idempotent
