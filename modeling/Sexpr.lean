import Sexpr.Datum.Dumped
import Sexpr.Datum.Equality
import Sexpr.Datum.Make
import Sexpr.Datum.Written
import Sexpr.Main
import Sexpr.Proofs.Reader.Descent
import Sexpr.Proofs.Scan.Written
import Sexpr.Proofs.Datum.Shape
import Sexpr.Proofs.Datum.Spelled
import Sexpr.Proofs.Reader.Spelled
import Sexpr.Proofs.Tokens.Written
import Sexpr.Proofs.Roundtrip
import Sexpr.Proofs.Scan.Legible
import Sexpr.Proofs.Reader.Sound
import Sexpr.Proofs.Reader.Leaves
import Sexpr.Proofs.Scan.Local
import Sexpr.Proofs.Scan.Verbatim
import Sexpr.Proofs.Tokens.Tiling
import Sexpr.Reader.Session
import Sexpr.Proofs.Reader.Fuel
import Sexpr.Proofs.Reader.Session
import Sexpr.Proofs.Reader.Grammar
import Sexpr.Proofs.Tokens.Steps
import Sexpr.Proofs.Reader.Places
import Sexpr.Proofs.Places
import Sexpr.Proofs.Scan.Lookahead
import Sexpr.Proofs.Tokens.Lookahead
import Sexpr.Proofs.Lookahead
import Sexpr.Proofs.Canonical
import Sexpr.Proofs.Scan.Faults
import Sexpr.Proofs.Tokens.Failing
import Sexpr.Proofs.Failing
import Sexpr.Proofs.Reader.Feeding
import Sexpr.Proofs.Reader.Erasing
import Sexpr.Proofs.Scan.Retention
import Sexpr.Proofs.Retention
import Sexpr.Proofs.Command.Brackets
import Sexpr.Proofs.Scan.Escapes
import Sexpr.Proofs.Datum.Dumped
import Sexpr.Proofs.Dump
import Sexpr.Proofs.Scan.Relabel
import Sexpr.Proofs.Tokens.Relabel
import Sexpr.Proofs.Concatenation
import Sexpr.Proofs.Reader.Strict
import Sexpr.Proofs.Reader.Completion
import Sexpr.Proofs.Command.Balance
import Sexpr.Proofs.Number.Fractions
import Sexpr.Proofs.Scan.Bare
import Sexpr.Number.Hashing
import Sexpr.Proofs.Number.Lowest
import Sexpr.Proofs.Formats
import Sexpr.Proofs.Nesting
import Sexpr.Proofs.Reader.Blame
import Sexpr.Proofs.Scan.Blame
import Sexpr.Proofs.Blame
import Sexpr.Datum.Hashing
import Sexpr.Proofs.Datum.Equality
import Sexpr.Proofs.Labels
import Sexpr.Source.Buffered
import Sexpr.Proofs.Chunks
import Sexpr.Proofs.Text.Utf8
import Sexpr.Proofs.Folder
import Sexpr.Proofs.Datum.Lines
import Sexpr.Proofs.Lines
import Sexpr.Proofs.Messages
import Sexpr.Proofs.Command.Sources
import Sexpr.Proofs.Datum.Walks
import Sexpr.Proofs.Source.Lexer
