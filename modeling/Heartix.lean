import Heartix.Lib.Runs
import Heartix.Lib.PartialTransfer
import Heartix.Lib.Overwrite
import Heartix.Stdio.Stream
import Heartix.Stdio.Flush
import Heartix.Stdio.Access
import Heartix.Stdio.BufferBounds
import Heartix.Stdio.Delivery
import Heartix.Lib.DoublyLinked
import Heartix.Stdio.Handle
import Heartix.Stdio.OpenFile
import Heartix.Stdio.OpenFileList
import Heartix.Stdio.Fclose
import Heartix.Lib.Fields
import Heartix.Process.Arguments
import Heartix.Gsh.Expression
import Heartix.Lib.FlatFile
import Heartix.Stdio.Cursor
import Heartix.Stdio.Shows
import Heartix.Stdio.CursorSteps
import Heartix.Stdio.Position
import Heartix.Stdio.ReadWrite
import Heartix.Stdio.Finaliser
import Heartix.Stdio.Program
import Heartix.Stdio.Exit
import Heartix.Lib.FileTable
import Heartix.Stdio.FileSystem
import Heartix.Stdio.FileStreams
import Heartix.Core.Mv
import Heartix.Stdio.Reading
import Heartix.Lib.Decimal
import Heartix.Terminal.Screen
import Heartix.Terminal.Stream
import Heartix.Terminal.ParameterBounds
import Heartix.Terminal.Protocol
import Heartix.Lib.Pieces
import Heartix.Terminal.Document
import Heartix.Terminal.Headless
import Heartix.Terminal.DocumentList
import Heartix.Terminal.DocumentRows
import Heartix.Terminal.Gui
import Heartix.Terminal.Client
import Heartix.Lib.Forest
import Heartix.Lib.LittleEndian
import Heartix.Ramdisk.Format
import Heartix.Ramdisk.Writer
import Heartix.Ramdisk.Image
import Heartix.Printf.Directive
import Heartix.Printf.Vcbprintf
import Heartix.Printf.Sinks
import Heartix.Gsh.LineEditor
import Heartix.Gsh.EditorSteps
import Heartix.Gsh.InStep
import Heartix.Lib.Ledger
import Heartix.Gsh.Pipeline
import Heartix.Gsh.Shell
import Heartix.Terminal.RawInput
import Heartix.Gsh.TypedLine
import Heartix.Strings.Comparison
import Heartix.Strings.Buffer
import Heartix.Stdio.Ownership
import Heartix.Printf.Text
import Heartix.Lib.AssociationList
import Heartix.Stdlib.Environment
import Heartix.Stdlib.EnvironmentMap
import Heartix.Lib.Quicksort
import Heartix.Stdlib.Qsort
import Heartix.Lib.Bisection
import Heartix.Stdlib.Bsearch
import Heartix.Lib.OnesComplement
import Heartix.Network.Checksum
import Heartix.Lib.Numeral
import Heartix.Stdlib.Strtol
import Heartix.Printf.Conversion
import Heartix.Printf.Field
import Heartix.Printf.StringField
import Heartix.Lib.Padding
import Heartix.Printf.Numerals
import Heartix.Printf.IntegerField
import Heartix.Stdlib.ReadBack
import Heartix.Printf.Formatted
import Heartix.Printf.Kvlog
import Heartix.Stdio.ElementCounts
import Heartix.Lib.Occurrence
import Heartix.Strings.Characters
import Heartix.Strings.Memmove
import Heartix.Strings.Substring
import Heartix.Lib.MaximalRuns
import Heartix.Strings.Tokens
import Heartix.Strings.TokenIterations
import Heartix.Unistd.Getopt
import Heartix.Unistd.OptionScan
import Heartix.Unistd.GetoptLong
import Heartix.Unistd.LongScan
import Heartix.Unistd.LongOptions
import Heartix.Unistd.Execvp
import Heartix.Stdio.Lines
import Heartix.Stdio.Fputs
import Heartix.Stdio.PushBack
import Heartix.Stdio.Indicators
import Heartix.Stdio.ModeViolations
import Heartix.Stdio.Replies
import Heartix.Stdio.IndicatorCycle
import Heartix.Strings.Memcpy
import Heartix.Terminal.Copies
import Heartix.Libgen.Components
import Heartix.Stdlib.Strtod
import Heartix.Gsh.Segments
import Heartix.Gsh.Quoting
import Heartix.Gsh.Text
import Heartix.Gsh.LineBuffer
import Heartix.Lib.Separator
import Heartix.Lib.Zipper
import Heartix.Terminal.Scanner
import Heartix.Terminal.Window
import Heartix.Terminal.ParameterPositions
import Heartix.Terminal.CursorReport
import Heartix.Terminal.Input
import Heartix.Terminal.EchoedCells
import Heartix.Terminal.EndOfInput
import Heartix.Terminal.LineDiscipline
import Heartix.Lib.FirstFree
import Heartix.Desktop.ItemOrganizer
import Heartix.Desktop.Placement
import Heartix.Desktop.Background
import Heartix.Desktop.Desk
import Heartix.Lib.Painting
import Heartix.Terminal.Framebuffer
import Heartix.Terminal.Picture
import Heartix.Terminal.Confinement
import Heartix.Terminal.ErrorOutput
import Heartix.Terminal.CursorCell
import Heartix.Lib.Separated
import Heartix.Network.DottedQuad
import Heartix.Network.AddressText
import Heartix.Changes.Table
import Heartix.Changes.Tracking
import Heartix.Changes.CommandLine
import Heartix.Changes.Program
import Heartix.Ramdisk.Ignore
import Heartix.Ramdisk.Pruned
import Heartix.Terminal.Paint
import Heartix.Terminal.PaintSafety
import Heartix.Terminal.ScrolledView
import Heartix.Process.ArgumentVector
import Heartix.Lib.Chunks
import Heartix.Lib.Deliveries
import Heartix.Sound.LoginSound
import Heartix.Sound.Playback
import Heartix.Lib.BackForward
import Heartix.Navigator.History
import Heartix.Navigator.Panels
import Heartix.Network.Ping
import Heartix.Network.PingNetwork
import Heartix.Process.ExitHandlers
import Heartix.Stdlib.SortedSearch
import Heartix.Printf.Streams
import Heartix.Stdio.TemporaryNames
