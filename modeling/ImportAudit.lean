import ImportAudit.Audit
import ImportAudit.Command
import ImportAudit.Main
import ImportAudit.Settings.Document
import ImportAudit.Proofs.BindingLines
import ImportAudit.Proofs.CommandOutcome
import ImportAudit.Proofs.Exports
import ImportAudit.Proofs.FailedRuns
import ImportAudit.Proofs.ImportUsage
import ImportAudit.Proofs.InferredFiles
import ImportAudit.Proofs.Interruptions
import ImportAudit.Proofs.LaterImports
import ImportAudit.Proofs.LazyClause
import ImportAudit.Proofs.LineEndings
import ImportAudit.Proofs.ModuleWords
import ImportAudit.Proofs.NamespaceUses
import ImportAudit.Proofs.RelativeRoot
import ImportAudit.Proofs.ResolutionStages
import ImportAudit.Proofs.Session
import ImportAudit.Proofs.SurveyOrder
import ImportAudit.Proofs.TargetGroups
import ImportAudit.Proofs.UseContexts
