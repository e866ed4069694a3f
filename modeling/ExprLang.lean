import ExprLang.Main
import ExprLang.Proofs.CommandRuns
import ExprLang.Proofs.CompiledRuns
import ExprLang.Proofs.PathSafety
import ExprLang.Proofs.ParsedLayout
import ExprLang.Proofs.ErrorPersistence
import ExprLang.Proofs.ParsePrinted
import ExprLang.Proofs.UniqueReading
import ExprLang.Proofs.LineSeams
import ExprLang.Proofs.RenamedPrograms
import ExprLang.Proofs.LayoutFreedom
import ExprLang.Proofs.ScopingRule
import ExprLang.Proofs.UnusedDeclarations
import ExprLang.Proofs.ScopeDiscipline
import ExprLang.Proofs.PointedReports
import ExprLang.Proofs.TreeHeight
import ExprLang.Proofs.WellFormedTrees
import ExprLang.Proofs.SourceLocations
import ExprLang.Proofs.KeptScopes
import ExprLang.Proofs.Parentheses
import ExprLang.Proofs.Violations
import ExprLang.Proofs.LimitedOutput
import ExprLang.Proofs.ReservedNames
import ExprLang.Proofs.Bookkeeping
import ExprLang.Proofs.ByteOffsets
import ExprLang.Proofs.Signatures
import ExprLang.Proofs.WrappingArithmetic
import ExprLang.Proofs.IntegerLiterals
import ExprLang.Proofs.Listings
import ExprLang.Proofs.TypeTexts
import ExprLang.Proofs.UnassignedVariables
import ExprLang.Proofs.Minting
