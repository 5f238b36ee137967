import Calculator.Binary64.Bits
import Calculator.Main
import Calculator.Proofs.Grammar.Value
import Calculator.Proofs.Evaluation.Acceptance
import Calculator.Text.Scanner
import Calculator.Proofs.Machine.Group
import Calculator.Proofs.Machine.Layers
import Calculator.Proofs.Machine.Map
import Calculator.Proofs.Binary64.Quotient
import Calculator.Proofs.Decimal.Rounding
import Calculator.Proofs.Machine.Provenance
import Calculator.Proofs.Decimal.Shortest
import Calculator.Proofs.Decimal.Plain
import Calculator.Proofs.Numeral.Reading
import Calculator.Proofs.Evaluation.Numeral
import Calculator.Proofs.Evaluation.ReadBack
import Calculator.Proofs.Evaluation.Layout
import Calculator.Proofs.Evaluation.Integer
import Calculator.Proofs.Evaluation.MissingOperand
import Calculator.Proofs.Machine.Isolation
import Calculator.Application
import Calculator.Proofs.Machine.Refusal
import Calculator.Proofs.Machine.Control
import Calculator.Proofs.Evaluation.FirstFault
import Calculator.Text.Splitter
import Calculator.Proofs.Text.Place
import Calculator.Proofs.Numeral.Recognition
import Calculator.Proofs.Token.Class
import Calculator.Proofs.Binary64.Midpoint
import Calculator.Proofs.Decimal.Interval
import Calculator.Proofs.Decimal.Nearest
import Calculator.Proofs.Numeral.Rounding
import Calculator.Proofs.Decimal.Search
import Calculator.Proofs.Decimal.Minimal
import Calculator.Proofs.Numeral.Significance
import Calculator.Proofs.Decimal.Form
import Calculator.Proofs.Evaluation.Shortest
import Calculator.Box.Reading
import Calculator.Proofs.Box.Reading
import Calculator.Proofs.Box.Legible
import Calculator.CommandLine.Spelling
import Calculator.Proofs.CommandLine.Spelling
import Calculator.Proofs.CommandLine.Quoting
import Calculator.Proofs.Postfix.Written
