import DiagramText.Format
import DiagramText.Proofs.Assembly
import DiagramText.Proofs.BareSpelling
import DiagramText.Proofs.BoardSorting
import DiagramText.Proofs.BracketBalance
import DiagramText.Proofs.CanonicalTree
import DiagramText.Proofs.ChosenForms
import DiagramText.Proofs.CommentLines
import DiagramText.Proofs.DocOperations
import DiagramText.Proofs.DocText
import DiagramText.Proofs.Enclosing
import DiagramText.Proofs.EntryOrder
import DiagramText.Proofs.EntryPositions
import DiagramText.Proofs.FenceSearch
import DiagramText.Proofs.FormChoice
import DiagramText.Proofs.IndentationLevels
import DiagramText.Proofs.KeyContext
import DiagramText.Proofs.KeyMarkers
import DiagramText.Proofs.KeySpelling
import DiagramText.Proofs.KeyText
import DiagramText.Proofs.KeywordCase
import DiagramText.Proofs.LineBreaks
import DiagramText.Proofs.MovedTree
import DiagramText.Proofs.NormalForm
import DiagramText.Proofs.Omissions
import DiagramText.Proofs.OneLineMaps
import DiagramText.Proofs.OneLineTrees
import DiagramText.Proofs.PieceBorders
import DiagramText.Proofs.PrintedLines
import DiagramText.Proofs.PrintingRun
import DiagramText.Proofs.QuotedPieces
import DiagramText.Proofs.Reading.Bare
import DiagramText.Proofs.Reading.Block
import DiagramText.Proofs.Reading.Comment
import DiagramText.Proofs.Reading.EdgeChain
import DiagramText.Proofs.Reading.Fragment
import DiagramText.Proofs.Reading.Path
import DiagramText.Proofs.Reading.Quoted
import DiagramText.Proofs.Reading.Tree
import DiagramText.Proofs.Reindentation
import DiagramText.Proofs.SameLayout
import DiagramText.Proofs.SingleQuotes
import DiagramText.Proofs.SourceSpacing
import DiagramText.Proofs.TextLeaves
import DiagramText.Proofs.TreeParts
import DiagramText.Tree.Equality
