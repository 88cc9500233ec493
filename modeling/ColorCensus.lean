import ColorCensus.Bisection
import ColorCensus.Census
import ColorCensus.Command.Run
import ColorCensus.Disk.Tree
import ColorCensus.Log.Setup
import ColorCensus.Main
import ColorCensus.Service
import ColorCensus.Proofs.Reach
import ColorCensus.Proofs.Memory
import ColorCensus.Proofs.Pass
import ColorCensus.Proofs.StableSort
import ColorCensus.Proofs.Conservation
import ColorCensus.Proofs.Lines
import ColorCensus.Proofs.Table
import ColorCensus.Proofs.Tokens
import ColorCensus.Proofs.Spots
import ColorCensus.Proofs.Resolution
import ColorCensus.Proofs.Growth
import ColorCensus.Proofs.Canonical
import ColorCensus.Proofs.Record
import ColorCensus.Proofs.Turns
import ColorCensus.Proofs.BreadthFirst
import ColorCensus.Proofs.Steady
import ColorCensus.Proofs.Locality
import ColorCensus.Proofs.Pieces
import ColorCensus.Proofs.Literals
import ColorCensus.Proofs.Variables
import ColorCensus.Proofs.Overlap
import ColorCensus.Proofs.Spans
import ColorCensus.Proofs.Enclosure
import ColorCensus.Proofs.Accounts
import ColorCensus.Proofs.Braces
import ColorCensus.Proofs.BlockThemes
import ColorCensus.Proofs.Loading
import ColorCensus.Proofs.Outcomes
import ColorCensus.Proofs.ReadBack
import ColorCensus.Proofs.CommandLine
import ColorCensus.Proofs.Agreement
import ColorCensus.Proofs.Labels
import ColorCensus.Proofs.Sharing
import ColorCensus.Proofs.Visits
import ColorCensus.Proofs.Tallies
import ColorCensus.Proofs.Afresh
import ColorCensus.Proofs.LineEnds.Text
import ColorCensus.Proofs.LineEnds.Tokens
import ColorCensus.Proofs.LineEnds.Colors
import ColorCensus.Proofs.LineEnds.Masks
import ColorCensus.Proofs.LineEnds.Contexts
import ColorCensus.Proofs.LineEnds.Themes
import ColorCensus.Proofs.LineEnds.Scan
import ColorCensus.Proofs.Scopes
import ColorCensus.Proofs.Cuts
import ColorCensus.Proofs.Declarations
import ColorCensus.Proofs.Floors
import ColorCensus.Proofs.Detours
import ColorCensus.Proofs.Addresses
import ColorCensus.Proofs.Components
import ColorCensus.Proofs.SourceOrder
import ColorCensus.Proofs.Aliases
import ColorCensus.Proofs.Descent
import ColorCensus.Proofs.Exclusions
import ColorCensus.Proofs.Windows
import ColorCensus.Proofs.Masking
import ColorCensus.Proofs.Terminators
import ColorCensus.Proofs.Lookback
import ColorCensus.Proofs.Ranges
import ColorCensus.Proofs.Places
import ColorCensus.Proofs.Identity
import ColorCensus.Proofs.Arrangement
import ColorCensus.Proofs.Themes
import ColorCensus.Proofs.Chapters
import ColorCensus.Proofs.Hexadecimal
import ColorCensus.Proofs.NormalForms
import ColorCensus.Proofs.Leading
import ColorCensus.Proofs.LetterCase
import ColorCensus.Proofs.Configured
import ColorCensus.Proofs.Patterns
import ColorCensus.Proofs.Positions
import ColorCensus.Proofs.Watching
import ColorCensus.Proofs.Followable
