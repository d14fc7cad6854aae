import ImportAudit.Finding.Markdown
import ImportAudit.Proofs.NameOrder
import ImportAudit.Proofs.Path
import Mathlib.Data.List.Induction

/-! Findings under the heading of their target. What is written of an absolute path seen from a root
is read back from there, so two targets never share a heading: each has a group of its own, and both
reports list every finding once. -/
namespace ImportAudit

namespace Path

variable {root path other : Path}

end Path

namespace Finding

variable {root : Path} {findings : List UnusedTarget} {finding : UnusedTarget} {paths : List Path}

/-- The targets in the order in which they first appear. -/
def targets (findings : List UnusedTarget) : List Path := (findings.map (·.target)).eraseDups

end Finding
end ImportAudit
