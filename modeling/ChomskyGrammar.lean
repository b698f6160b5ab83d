import ChomskyGrammar.GrammarFile.Directory
import ChomskyGrammar.Main
import ChomskyGrammar.Proofs.CommandLine.Complaints
import ChomskyGrammar.Proofs.Generation.Coverage
import ChomskyGrammar.Proofs.Generation.DepthLimit
import ChomskyGrammar.Proofs.Generation.LengthLimit
import ChomskyGrammar.Proofs.Grammar.Description
import ChomskyGrammar.Proofs.Grammar.Growth
import ChomskyGrammar.Proofs.Grammar.InPlace
import ChomskyGrammar.Proofs.GrammarFile.ConstructionOrder
import ChomskyGrammar.Proofs.GrammarFile.LineSyntax
import ChomskyGrammar.Proofs.GrammarFile.NeutralLines
import ChomskyGrammar.Proofs.GrammarFile.Sameness
import ChomskyGrammar.Proofs.Recognition.ChartReading
import ChomskyGrammar.Proofs.Recognition.MachineChart
import ChomskyGrammar.Proofs.Recognition.Refusals
