import LetDef.Main
import LetDef.Proofs.Grammar.Agreement
import LetDef.Proofs.Printing.Image
import LetDef.Proofs.Grammar.Parallel
import LetDef.Proofs.Grammar.Threshold
import LetDef.Proofs.Grammar.Decoding
import LetDef.Proofs.Grammar.Layout
import LetDef.Proofs.Grammar.Viability
import LetDef.Proofs.Grammar.EarliestFault
import LetDef.Proofs.Lexical.Lines
import LetDef.Proofs.Lexical.Segments
import LetDef.Proofs.Diagnostic.Collecting
import LetDef.Proofs.CommandLine.Outcome
import LetDef.Proofs.CommandLine.Locations
import LetDef.Proofs.Printing.Budget
import LetDef.Proofs.Printing.Yield
import LetDef.Proofs.Lexical.Calls
import LetDef.Proofs.Lexical.Defects
import LetDef.Proofs.Grammar.SelfDelimiting
import LetDef.Proofs.Grammar.TruthfulFault
import LetDef.Proofs.File.Locating
import LetDef.Proofs.Printing.Quotation
import LetDef.Proofs.Dump.Determination
import LetDef.Proofs.Grammar.Stateless
import LetDef.Proofs.Grammar.Progress
import LetDef.Proofs.Grammar.Lookahead
