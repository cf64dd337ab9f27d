import CondLang.ConditionCache
import CondLang.Main
import CondLang.Project.FileTree
import CondLang.Token.Stream
import CondLang.Proofs.Grammar.Unambiguous
import CondLang.Proofs.Lexing
import CondLang.Proofs.Parser.Run
import CondLang.Proofs.Parser.Phrase
import CondLang.Proofs.Parser.Sound
import CondLang.Proofs.Parser.Complete
import CondLang.Proofs.Parser.Exact
import CondLang.Proofs.Grammar.Depth
import CondLang.Proofs.Nesting
import CondLang.Proofs.Evaluation.Faithful
import CondLang.Proofs.Evaluation.Answers
import CondLang.Proofs.Evaluation.Transparent
import CondLang.Proofs.Evaluation.ShortCircuit
import CondLang.Proofs.Expansion.Pieces
import CondLang.Proofs.Grammar.Moved
import CondLang.Proofs.Grammar.Parts
import CondLang.Proofs.Grammar.Spans
import CondLang.Proofs.Lexing.Tiling
import CondLang.Proofs.Lexing.References
import CondLang.Proofs.Lexing.Printing
import CondLang.Proofs.Lexing.Slices
import CondLang.Proofs.Parser.Slices
import CondLang.Proofs.Text.Escape
import CondLang.Proofs.Text.PercentEncoding
import CondLang.Proofs.Reference.Named
import CondLang.Proofs.Project.Identity
import CondLang.Proofs.Evaluation.Law
import CondLang.Proofs.Evaluation.Alike
import CondLang.Proofs.Reference.Parts
import CondLang.Proofs.Expansion.Reaches
import CondLang.Proofs.Project.Reads
import CondLang.Proofs.Parser.Leaves
import CondLang.Proofs.Expansion.Asked
import CondLang.Proofs.Evaluation.Blocks
import CondLang.Proofs.Project.Indifferent
import CondLang.Proofs.Evaluation.Simulation
import CondLang.Proofs.Subtrees
import CondLang.Proofs.Evaluation.Reset
import CondLang.Proofs.ConditionCache
import CondLang.Proofs.Evaluation.EntryPoints
import CondLang.Proofs.Project.Strictness
import CondLang.Proofs.Text.Caseless
import CondLang.Proofs.Value.Decimal
import CondLang.Proofs.Value.Version
import CondLang.Proofs.Value.Key
import CondLang.Proofs.Evaluation.Equality
import CondLang.Proofs.Grammar.Parentheses
import CondLang.Proofs.Grammar.Mixing
import CondLang.Proofs.Mixing
import CondLang.Proofs.ConditionCache.Runs
import CondLang.Proofs.Evaluation.Places
import CondLang.Proofs.Text.Firsts
import CondLang.Proofs.Evaluation.Conditioned
import CondLang.Proofs.Json
import CondLang.Proofs.Evaluation.Sequential
import CondLang.Proofs.Policy
import CondLang.Proofs.Evaluation.Recorded
import CondLang.Proofs.Evaluation.Ordering
import CondLang.Proofs.Evaluation.Culprits
import CondLang.Proofs.Evaluation.Patterns
import CondLang.Proofs.Parser.Levels
import CondLang.Proofs.Grammar.Grouped
import CondLang.Proofs.Parenthesized
import CondLang.Proofs.Evaluation.PlainLeaves
import CondLang.Proofs.Reference.Written
import CondLang.Proofs.Reference.Unambiguous
import CondLang.Proofs.Reference.Scanner
import CondLang.Proofs.Project.Distinct
import CondLang.Proofs.Project.Transforms
import CondLang.Proofs.Value.Version.Written
import CondLang.Proofs.Value.Decimal.Spelling
import CondLang.Proofs.Text.Lowercase
import CondLang.Proofs.Project.Duplicates
import CondLang.Proofs.Project.Recursion
import CondLang.Proofs.Reference.Balanced
import CondLang.Proofs.Expansion.Positions
import CondLang.Proofs.Text.ByteOrder
import CondLang.Proofs.Json.Ordered
import CondLang.Proofs.Command.Contents
import CondLang.Proofs.NameTable
import CondLang.Proofs.Command.Malformed
import CondLang.Proofs.Command.Layers
import CondLang.Proofs.Traversal
