import GrammarCatalog.CommandLine.Arguments
import GrammarCatalog.CommandLine.Run
import GrammarCatalog.Json.Reader
import GrammarCatalog.Main
import GrammarCatalog.Proofs.Declaration.DeclaredNames
import GrammarCatalog.Proofs.Declaration.Decompositions
import GrammarCatalog.Proofs.Declaration.Events
import GrammarCatalog.Proofs.Declaration.Marks
import GrammarCatalog.Proofs.Declaration.NoFault
import GrammarCatalog.Proofs.Declaration.Origins
import GrammarCatalog.Proofs.Declaration.Reordering
import GrammarCatalog.Proofs.Declaration.Returns
import GrammarCatalog.Proofs.Declaration.Terminals
import GrammarCatalog.Proofs.Tree.Concatenation
import GrammarCatalog.Proofs.Tree.FirstRefused
import GrammarCatalog.Proofs.Tree.Height
import GrammarCatalog.Proofs.Tree.Leaves
import GrammarCatalog.Proofs.Tree.Nesting
import GrammarCatalog.Proofs.Tree.Outlines
import GrammarCatalog.Proofs.Token.Coverage
import GrammarCatalog.Proofs.Token.Faithful
import GrammarCatalog.Proofs.Token.Shown
import GrammarCatalog.Proofs.Token.OpenLexemes
import GrammarCatalog.Proofs.Tree.Reasons
import GrammarCatalog.Proofs.Tree.LexicalMessages
import GrammarCatalog.Proofs.Tree.Traversals
import GrammarCatalog.Proofs.Tree.Readings
import GrammarCatalog.Proofs.CommandLine.Reports
import GrammarCatalog.Proofs.Json.ReadBack
import GrammarCatalog.Proofs.Declaration.JsonForms
import GrammarCatalog.Proofs.CommandLine.Sinks
import GrammarCatalog.Proofs.CommandLine.Outputs
import GrammarCatalog.Proofs.CommandLine.Limits
import GrammarCatalog.Proofs.Token.Replaced
import GrammarCatalog.Proofs.Token.Spacing
import GrammarCatalog.Proofs.Token.Alone
import GrammarCatalog.Proofs.Text.LineAround
import GrammarCatalog.Proofs.CommandLine.Table
import GrammarCatalog.Proofs.Declaration.Distinctness
