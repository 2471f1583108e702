import TextMusic.Pitch
import TextMusic.Action
import TextMusic.Event
import TextMusic.Message
import TextMusic.Message.Encoding
import TextMusic.Timeline
import TextMusic.Binary
import TextMusic.Decimal.Digits
import TextMusic.Decimal.Shortest
import TextMusic.Json.Basic
import TextMusic.Json.Printer
import TextMusic.Json.Lexer
import TextMusic.Json.Reader
import TextMusic.Json.Single
import TextMusic.Error
import TextMusic.Error.Forms
import TextMusic.Config
import TextMusic.Config.Text
import TextMusic.Dice
import TextMusic.Random.Cipher
import TextMusic.Random.Stream
import TextMusic.Voice
import TextMusic.Memory
import TextMusic.Performance
import TextMusic.Text.Source
import TextMusic.Text.Decoder
import TextMusic.Text.Utf8
import TextMusic.Text.Blank
import TextMusic.Text.Hidden
import TextMusic.Text.Quoted
import TextMusic.Session
import TextMusic.Document
import TextMusic.Rendering
import TextMusic.Duration
import TextMusic.Schedule
import TextMusic.Playback
import TextMusic.Sink
import TextMusic.Journal
import TextMusic.Path
import TextMusic.FreshName
import TextMusic.Files
import TextMusic.FileTree
import TextMusic.CommandLine.Options
import TextMusic.CommandLine.Run
import TextMusic.Main
import TextMusic.Proofs.WellFormed
import TextMusic.Proofs.Lossy
import TextMusic.Proofs.Pieces
import TextMusic.Proofs.Failure
import TextMusic.Proofs.Request
import TextMusic.Proofs.Wire
import TextMusic.Proofs.Orderly
import TextMusic.Proofs.History
import TextMusic.Proofs.Coherence
import TextMusic.Proofs.Asked
import TextMusic.Proofs.Course
import TextMusic.Proofs.Program
import TextMusic.Proofs.Channel
import TextMusic.Proofs.Music
import TextMusic.Proofs.Spelling
import TextMusic.Proofs.Accounting
import TextMusic.Proofs.Delivery
import TextMusic.Proofs.Agreement
import TextMusic.Proofs.Causality
import TextMusic.Proofs.Later
import TextMusic.Proofs.Ticks
import TextMusic.Proofs.Tempo
import TextMusic.Proofs.ClosedForm
import TextMusic.Proofs.Ledger
import TextMusic.Proofs.Dropped
import TextMusic.Proofs.Elapsed
import TextMusic.Proofs.Pace
import TextMusic.Proofs.FreshNames
import TextMusic.Proofs.Sinks
import TextMusic.Proofs.Lines
import TextMusic.Proofs.Command
import TextMusic.Proofs.OutputModes
import TextMusic.Proofs.Segments
import TextMusic.Proofs.Draws
import TextMusic.Proofs.SinkNames
import TextMusic.Proofs.RoundTrip
import TextMusic.Proofs.Record
import TextMusic.Proofs.NameSearch
import TextMusic.Proofs.Captured
import TextMusic.Proofs.EarlyRests
import TextMusic.Proofs.FloatBits
import TextMusic.Proofs.Rounding
import TextMusic.Proofs.Convergents
import TextMusic.Proofs.Halfway
import TextMusic.Proofs.Shortest
import TextMusic.Proofs.Narrowing
import TextMusic.Proofs.Scaling
import TextMusic.Proofs.ReadBack
import TextMusic.Proofs.OwnText
import TextMusic.Proofs.Described
import TextMusic.Proofs.Consumers
import TextMusic.Proofs.RangeChecks
