import FieldSelection.Json.Reader
import FieldSelection.Main
import FieldSelection.Proofs.Nesting
import FieldSelection.Proofs.Run
import FieldSelection.Proofs.Site
import FieldSelection.Proofs.Symbols
import FieldSelection.Proofs.Pass
import FieldSelection.Proofs.Fusion
import FieldSelection.Proofs.Recurrence
import FieldSelection.Proofs.Order
import FieldSelection.Proofs.Strategy
import FieldSelection.Proofs.Unmatched
import FieldSelection.Proofs.Limit
import FieldSelection.Proofs.Walk
import FieldSelection.Proofs.Utf8
import FieldSelection.Proofs.Percent
import FieldSelection.Proofs.Block
import FieldSelection.Proofs.Batch
import FieldSelection.Proofs.Lines
import FieldSelection.Proofs.Layers
import FieldSelection.Proofs.Renaming
import FieldSelection.Proofs.Slice
import FieldSelection.Proofs.Tokenization
import FieldSelection.Proofs.Bracket
import FieldSelection.Proofs.Candidates
import FieldSelection.Proofs.Pattern
import FieldSelection.Proofs.PlainReader
import FieldSelection.Proofs.Sections
import FieldSelection.Proofs.LastCut
import FieldSelection.Proofs.Lossy
import FieldSelection.Proofs.Decoding
import FieldSelection.Proofs.Escape
import FieldSelection.Proofs.Cells
import FieldSelection.Proofs.Spelling
import FieldSelection.Proofs.Reading
import FieldSelection.Proofs.ReadBack
