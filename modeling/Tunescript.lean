import Tunescript.Text.Alphanumeric
import Tunescript.Text.Digit
import Tunescript.Text.Index
import Tunescript.Text.Lines
import Tunescript.Text.Quoted
import Tunescript.Number.Binary64
import Tunescript.Number.Scalar
import Tunescript.Score.Command
import Tunescript.Score.ParseError
import Tunescript.Score.Reader
import Tunescript.Performance.Run
import Tunescript.Layout.Block
import Tunescript.Layout.Document
import Tunescript.Score.Address
import Tunescript.Editor.Buffer
import Tunescript.Editor.Indexed
import Tunescript.Editor.Settings
import Tunescript.Preview.Player
import Tunescript.Preview.Score
import Tunescript.Storage.Files
import Tunescript.Text.Uppercase
import Tunescript.Editor.Edits
import Tunescript.Editor.Moves
import Tunescript.Midi.Call
import Tunescript.Midi.Sequence
import Tunescript.Sound.Device
import Tunescript.CommandLine.Conventional
import Tunescript.CommandLine.Commands
import Tunescript.CommandLine.Mentioned
import Tunescript.Main
import Tunescript.Sorting.Permutation
import Tunescript.Sorting.Cut
import Tunescript.Sorting.Ordered
import Tunescript.Number.Sorted
import Tunescript.Proofs.Text.Rows
import Tunescript.Proofs.Editor.BufferText
import Tunescript.Proofs.Editor.Cursor
import Tunescript.Proofs.Editor.CursorMoves
import Tunescript.Proofs.Editor.CursorRuns
import Tunescript.Proofs.Editor.Changes
import Tunescript.Proofs.Editor.HistoryKept
import Tunescript.Proofs.Editor.LinearHistory
import Tunescript.Proofs.Editor.VerticalMoves
import Tunescript.Proofs.Score.Alike
import Tunescript.Proofs.Score.Shape
import Tunescript.Proofs.Layout.Written
import Tunescript.Proofs.Layout.CoreReading
import Tunescript.Proofs.Layout.LineReading
import Tunescript.Proofs.Layout.Drawn
import Tunescript.Proofs.Layout.MusicKept
import Tunescript.Proofs.Layout.Pieces
import Tunescript.Proofs.Layout.Settled
import Tunescript.Proofs.Layout.Reformatted
import Tunescript.Proofs.Score.Grammar
import Tunescript.Proofs.Layout.Room
import Tunescript.Proofs.Layout.RoundTrip
import Tunescript.Proofs.Editor.BufferRuns
import Tunescript.Proofs.Performance.Alignment
import Tunescript.Proofs.Score.Tokens
import Tunescript.Proofs.Number.Finite
import Tunescript.Proofs.Number.Rational
import Tunescript.Proofs.Performance.Schedule
import Tunescript.Proofs.Performance.Settings
import Tunescript.Proofs.Performance.Answers
import Tunescript.Proofs.Preview.LatestLines
import Tunescript.Proofs.Preview.Context
import Tunescript.Proofs.Layout.Formattable
import Tunescript.Proofs.Layout.Widths
import Tunescript.Proofs.Layout.Blocks
import Tunescript.Proofs.Layout.Partition
import Tunescript.Proofs.Layout.Columns
import Tunescript.Proofs.Sound.Mixing
import Tunescript.Proofs.Performance.Soundtrack
import Tunescript.Proofs.Performance.Agreement
import Tunescript.Proofs.Performance.PartOrder
import Tunescript.Proofs.Layout.Timing
import Tunescript.Proofs.Text.Utf8
import Tunescript.Proofs.Storage.Written
import Tunescript.Proofs.Editor.Persistence
import Tunescript.Proofs.Score.Concatenation
import Tunescript.Proofs.Preview.OnePlayer
import Tunescript.Proofs.Editor.Playback
import Tunescript.Proofs.Score.Respaced
import Tunescript.Proofs.Layout.Dirt
import Tunescript.Proofs.Score.NoteSpans
import Tunescript.Proofs.Performance.Reach
import Tunescript.Proofs.Text.Pieces
import Tunescript.Proofs.Score.VoiceLines
import Tunescript.Proofs.Performance.Voices
import Tunescript.Proofs.Number.Sign
import Tunescript.Proofs.Number.Truncation
import Tunescript.Proofs.Number.AtLeastOne
import Tunescript.Proofs.Score.Unsigned
import Tunescript.Proofs.Performance.Starts
import Tunescript.Proofs.Midi.Starts
import Tunescript.Proofs.Layout.Characters
import Tunescript.Proofs.CommandLine.Modes
import Tunescript.Proofs.Score.Repair
import Tunescript.Proofs.Performance.EventMeasures
import Tunescript.Proofs.Editor.RefusedTranspositions
import Tunescript.Proofs.Number.Digits
import Tunescript.Proofs.Score.Lengths
import Tunescript.Proofs.Layout.Frame
import Tunescript.Proofs.Layout.Skyline
import Tunescript.Proofs.Performance.Timeline
import Tunescript.Proofs.Pitch.Names
import Tunescript.Proofs.Pitch.Transposition
import Tunescript.Proofs.Score.Outline
import Tunescript.Proofs.Editor.Transposing
import Tunescript.Proofs.Editor.InsertedNote
import Tunescript.Proofs.Editor.CheckpointLine
import Tunescript.Proofs.Text.Search
import Tunescript.Proofs.Text.RowStarts
import Tunescript.Proofs.Editor.LineIndex
import Tunescript.Proofs.Editor.Addressing
import Tunescript.Proofs.Editor.Chunks
import Tunescript.Proofs.Score.NoteScan
import Tunescript.Proofs.Pitch.Keys
import Tunescript.Proofs.Midi.Tracks
