import DocExport.Adjacent
import DocExport.Archive.Decode
import DocExport.Archive.Ledger
import DocExport.Archive.Names
import DocExport.Archive.Package
import DocExport.Archive.Plan
import DocExport.Archive.Pool
import DocExport.Archive.Report
import DocExport.Block
import DocExport.Describe
import DocExport.Document
import DocExport.Document.Content
import DocExport.Document.OfBlock
import DocExport.Json
import DocExport.Json.Fields
import DocExport.Markdown.Escape
import DocExport.Markdown.Flow
import DocExport.Markdown.Grid
import DocExport.Markdown.Inline
import DocExport.Markdown.Layout
import DocExport.Markdown.Node
import DocExport.Markdown.Phrasing
import DocExport.Markdown.Style
import DocExport.Media.Bitmap
import DocExport.Media.Fetch
import DocExport.Proofs.AdjacentLists
import DocExport.Proofs.Asking
import DocExport.Proofs.BlankLines
import DocExport.Proofs.Cancelling
import DocExport.Proofs.Coalesced
import DocExport.Proofs.Coalescing
import DocExport.Proofs.CodeSpans
import DocExport.Proofs.CollectedMedia
import DocExport.Proofs.ContainerLines
import DocExport.Proofs.Containers
import DocExport.Proofs.ContentRules
import DocExport.Proofs.CurrentParent
import DocExport.Proofs.DocumentEnds
import DocExport.Proofs.DocumentOrder
import DocExport.Proofs.FencedCode
import DocExport.Proofs.FreshPaths
import DocExport.Proofs.Groups
import DocExport.Proofs.Harvests
import DocExport.Proofs.HeadingLines
import DocExport.Proofs.ItemNumbers
import DocExport.Proofs.LeastNumbers
import DocExport.Proofs.LineStarts
import DocExport.Proofs.LinkBrackets
import DocExport.Proofs.LinksAsImages
import DocExport.Proofs.MarkNodes
import DocExport.Proofs.MemberNames
import DocExport.Proofs.Neighbours
import DocExport.Proofs.NestedMarks
import DocExport.Proofs.Outline
import DocExport.Proofs.Packages
import DocExport.Proofs.PageHalves
import DocExport.Proofs.PendingLinks
import DocExport.Proofs.PercentEncoding
import DocExport.Proofs.Readiness
import DocExport.Proofs.Reading
import DocExport.Proofs.References
import DocExport.Proofs.Renumbering
import DocExport.Proofs.RunReading
import DocExport.Proofs.SafePaths
import DocExport.Proofs.Schedules
import DocExport.Proofs.SharedTargets
import DocExport.Proofs.ShownBlocks
import DocExport.Proofs.Splicing
import DocExport.Proofs.SplitRuns
import DocExport.Proofs.Strands
import DocExport.Proofs.Stretches
import DocExport.Proofs.StyledText
import DocExport.Proofs.TableGrid
import DocExport.Proofs.TableRows
import DocExport.Proofs.Timing
import DocExport.Proofs.Undisturbed
import DocExport.Proofs.Walk
import DocExport.Proofs.WrittenLetters
import DocExport.Proofs.WrittenTargets
import DocExport.RichText.Attributes
import DocExport.RichText.Decode
import DocExport.RichText.Phrasing
import DocExport.RichText.Run
import DocExport.Target
import DocExport.Target.Shelf
import DocExport.Text.Blank
import DocExport.Text.CaseTable
import DocExport.Text.Chars
import DocExport.Text.Decimal
import DocExport.Text.HiddenTable
import DocExport.Text.Lines
import DocExport.Text.Lowercase
import DocExport.Text.Percent
import DocExport.Text.Quoted
import DocExport.Text.Ranges
