import LineLexer.Main
import LineLexer.Proofs.GivingBack
import LineLexer.Proofs.Partition
import LineLexer.Proofs.Pinned
import LineLexer.Proofs.Unfailing
import LineLexer.Proofs.Replay
import LineLexer.Proofs.Scopes
import LineLexer.Proofs.PlainNumber
import LineLexer.Proofs.RealLiteral
import LineLexer.Proofs.Intact
import LineLexer.Proofs.Sound
import LineLexer.Session
import LineLexer.Proofs.CheckedWhole
import LineLexer.Proofs.HexReading
import LineLexer.Proofs.HexNumber
import LineLexer.Proofs.MixedNumber
import LineLexer.Proofs.Spellings
import LineLexer.Proofs.LongestOperator
import LineLexer.Proofs.Words
import LineLexer.Proofs.WholeNumbers
import LineLexer.Proofs.Underscore
import LineLexer.Proofs.Tables
import LineLexer.Proofs.SourceText
import LineLexer.Proofs.TokenEnds
import LineLexer.Proofs.Faults
import LineLexer.Proofs.Folding
import LineLexer.Proofs.Iteration
import LineLexer.Proofs.Resolution
import LineLexer.Proofs.InputLines
import LineLexer.Proofs.JsonNumber
import LineLexer.Proofs.JsonText
import LineLexer.Proofs.JsonReading
import LineLexer.Proofs.Rounding
import LineLexer.Proofs.WrittenReals
import LineLexer.Proofs.NumberValues
import LineLexer.Proofs.RecordContent
import LineLexer.Proofs.RecordRows
import LineLexer.Proofs.SingleRows
import LineLexer.Proofs.TextRows
import LineLexer.Proofs.Formats
