import Propositional.CommandLine
import Propositional.Cursor
import Propositional.Formula
import Propositional.Formula.Alike
import Propositional.Formula.Canonical
import Propositional.Formula.Measure
import Propositional.Formula.Parse
import Propositional.Formula.Render
import Propositional.Formula.Value
import Propositional.Main
import Propositional.Pattern
import Propositional.PrefixTree
import Propositional.Reading
import Propositional.Record
import Propositional.Rule
import Propositional.Simplification
import Propositional.Symbol
import Propositional.Symbol.Spelling
import Propositional.Text.Blank
import Propositional.Text.Quoted
import Propositional.Text.Unprintable
import Propositional.Token
import Propositional.Token.Scan
import Propositional.Token.Stream
import Propositional.TruthTable
import Propositional.Proofs.Evaluation
import Propositional.Proofs.Matching
import Propositional.Proofs.Rewriting
import Propositional.Proofs.Soundness
import Propositional.Proofs.NormalForm
import Propositional.Proofs.Grammar
import Propositional.Proofs.Parsing
import Propositional.Proofs.Stacks
import Propositional.Proofs.Scanning
import Propositional.Proofs.Tokenizing
import Propositional.Proofs.RoundTrip
import Propositional.Proofs.Shrinking
import Propositional.Proofs.Nesting
import Propositional.Proofs.WordTree
import Propositional.Proofs.LongestWord
import Propositional.Proofs.Reader
import Propositional.Proofs.Spacing
import Propositional.Proofs.Tables
import Propositional.Proofs.Congruence
import Propositional.Proofs.Termination
import Propositional.Proofs.Treatment
import Propositional.Proofs.Variables
import Propositional.Proofs.Readings
import Propositional.Proofs.Duality
import Propositional.Proofs.Constants
import Propositional.Proofs.Lexemes
import Propositional.Proofs.Synonyms
import Propositional.Proofs.Sessions
import Propositional.Proofs.Completeness
import Propositional.Proofs.Normalization
import Propositional.Proofs.Commutativity
import Propositional.Proofs.Building
import Propositional.Proofs.Unassigned
import Propositional.Proofs.Rows
import Propositional.Proofs.Lookahead
import Propositional.Proofs.Equivalents
import Propositional.Proofs.Beginnings
import Propositional.Proofs.PostOrder
import Propositional.Proofs.StackOrder
import Propositional.Proofs.Guarded
import Propositional.Proofs.Runs
import Propositional.Proofs.PuttingBack
import Propositional.Proofs.Unification
