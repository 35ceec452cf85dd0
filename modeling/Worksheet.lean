import Worksheet.Main
import Worksheet.Proofs.Batch.Listing
import Worksheet.Proofs.Batch.Resumed
import Worksheet.Proofs.Formula.Alternatives
import Worksheet.Proofs.Formula.Blanks
import Worksheet.Proofs.Formula.Evaluation
import Worksheet.Proofs.Formula.Language
import Worksheet.Proofs.Formula.VariableList
import Worksheet.Proofs.Pattern.Matching
import Worksheet.Proofs.Rules.WholeName
import Worksheet.Proofs.Sheet.Affected
import Worksheet.Proofs.Sheet.Confluence
import Worksheet.Proofs.Sheet.LetterCase
import Worksheet.Proofs.Sheet.Loading
import Worksheet.Proofs.Sheet.Reentered
import Worksheet.Proofs.Snapshot.Cells
import Worksheet.Proofs.Snapshot.LineGrammar
import Worksheet.Proofs.Snapshot.Lossless
import Worksheet.Proofs.Snapshot.Truncated
import Worksheet.Proofs.Snapshot.Version
