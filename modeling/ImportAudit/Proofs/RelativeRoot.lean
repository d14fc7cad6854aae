import ImportAudit.Source
import ImportAudit.Proofs.Resolution
import Mathlib.Data.List.Nodup
import Mathlib.Data.List.Perm.Subperm

/-! Why a codebase has an absolute root. Above the top of the disk there is only the top again, so
that `..` can stand before a relative path any number of times and lead to the same file. All these
paths lie within the root `.`, and links can lead from each to the next. -/
namespace ImportAudit

theorem Path.normalizeParts_replicate (kept count : Nat) (parts : List String) :
    normalizeParts true (List.replicate kept "..") (List.replicate count ".." ++ parts) =
      normalizeParts true (List.replicate (kept + count) "..") parts := by
  induction count generalizing kept with
  | zero => rfl
  | succ count ih =>
      have next := ih (kept + 1)
      rw [Nat.add_right_comm, Nat.add_assoc] at next
      cases kept <;> simpa [List.replicate_succ, normalizeParts] using next

theorem Disk.follow_replicate (count : Nat) (parts : List String) (here : Entries) :
    follow [] here (List.replicate count ".." ++ parts) = follow [] here parts := by
  induction count with
  | zero => rfl
  | succ count ih => simpa [List.replicate_succ, follow] using ih

namespace RelativeRoot

/-- A file at the top that imports itself through the folder above. -/
def selfImport : Disk :=
  (default : Disk).put (.parse "/a.ts") (Text.Utf8.encode "import '../a'".toList)

/-- The file as seen from the top, after `count` steps up. -/
def detour (count : Nat) : Path :=
  ⟨.relative, List.replicate count ".." ++ ["a.ts"], fun part member => by
    rcases List.mem_append.mp member with up | last
    · rw [List.eq_of_mem_replicate up]
      decide
    · rw [List.mem_singleton.mp last]
      decide⟩

theorem detour_injective : Function.Injective detour := by
  intro count other same
  have lengths := congrArg (fun path : Path => path.parts.length) same
  simpa [detour] using lengths

theorem base_detour (count : Nat) :
    (Resolution.base (detour count) "../a").parts = List.replicate (count + 1) ".." ++ ["a"] := by
  have named : (Path.parse "../a").parts = ["..", "a"] := by decide
  have relative : (Path.parse "../a").anchor = .relative := by decide
  have split : List.replicate count ".." ++ ["..", "a"] =
      List.replicate (count + 1) ".." ++ ["a"] := by
    rw [List.replicate_succ', List.append_assoc]
    rfl
  have kept := Path.normalizeParts_replicate 0 (count + 1) ["a"]
  simp only [Resolution.base, Path.normalize, Path.join, Path.parent, detour, relative, named,
    if_true, List.dropLast_concat, split]
  simpa [Path.normalizeParts] using kept

theorem withExtension_detour (count : Nat) :
    Resolution.withExtension (Resolution.base (detour count) "../a") ".ts" = detour (count + 1) := by
  have relative : (Resolution.base (detour count) "../a").anchor = .relative :=
    Resolution.base_anchor (detour count) (by decide)
  apply Path.ext
  · refine Anchor.ofText_eq_relative_iff.mpr ?_
    rw [Path.render, if_neg (by simp [base_detour]), relative, base_detour, List.replicate_succ,
      List.cons_append, String.intercalate_cons_of_ne_nil (by simp)]
    simp [String.toList_append, Anchor.render]
  · rw [Resolution.withExtension_parts_concat (base_detour count), List.append_assoc]
    exact congrArg (List.replicate (count + 1) ".." ++ ·) (by decide)

theorem resolve?_detour (count : Nat) :
    Resolution.resolve? selfImport [".ts"] (detour count) "../a" = some (detour (count + 1)) := by
  have absent : selfImport.isFile (Resolution.base (detour count) "../a") = false := by
    rw [Disk.isFile, Disk.node, base_detour, Disk.follow_replicate]
    decide +kernel
  have there : selfImport.isFile (detour (count + 1)) = true := by
    rw [Disk.isFile, Disk.node, detour, Disk.follow_replicate]
    decide +kernel
  rw [Resolution.resolve?, if_pos (by decide), Resolution.candidates, List.cons_append,
    List.find?_cons_of_neg (by simp [absent]), List.map_singleton, List.cons_append,
    withExtension_detour, List.find?_cons_of_pos there]

/-- Each detour holds a link to the next one, which lies within the root `.` like all of them. -/
theorem detour_links (count : Nat) :
    ∃ bytes, selfImport.node (detour count) = .ok (.file bytes) ∧
      ∃ link ∈ (Source.parse selfImport (.parse ".") [".ts"] (detour count) bytes).links,
        link.target = detour (count + 1) ∧ link.target.isWithin (.parse ".") = true := by
  let bytes := Text.Utf8.encode "import '../a'".toList
  have stored : selfImport.node (detour count) = .ok (.file bytes) := by
    rw [Disk.node, detour, Disk.follow_replicate]
    decide +kernel
  have within : (detour (count + 1)).isWithin (.parse ".") = true :=
    Path.isWithin_iff.mpr ⟨rfl, List.nil_prefix⟩
  have written : (Script.mentions (Source.textOf bytes)).map (·.specifier) = ["../a"] := by
    decide +kernel
  obtain ⟨mention, listed, specifier⟩ := List.mem_map.mp (written ▸ List.mem_singleton_self "../a")
  let link : Link := ⟨detour (count + 1), mention.specifier, mention.bindings,
    (Source.textOf bytes).lineOf mention.span.start, mention.span⟩
  have linked : Source.link? selfImport (.parse ".") [".ts"] (detour count) (Source.textOf bytes)
      mention = some link := by
    simp only [Source.link?, specifier, resolve?_detour, within, if_true, link]
  exact ⟨bytes, stored, link, List.mem_filterMap.mpr ⟨mention, listed, linked⟩, rfl, within⟩

/-- Below the relative root `.` there is no end to the files that links lead to: no finite list
holds this one and is closed under them. -/
theorem links_endless (files : List Path) (start : detour 0 ∈ files) :
    ∃ path ∈ files, ∃ bytes, selfImport.node path = .ok (.file bytes) ∧
      ∃ link ∈ (Source.parse selfImport (.parse ".") [".ts"] path bytes).links,
        link.target.isWithin (.parse ".") = true ∧ link.target ∉ files := by
  by_contra closed
  have all : ∀ count, detour count ∈ files := by
    intro count
    induction count with
    | zero => exact start
    | succ count ih =>
        obtain ⟨bytes, stored, link, listed, target, within⟩ := detour_links count
        by_contra outside
        exact closed ⟨_, ih, bytes, stored, link, listed, within, target ▸ outside⟩
  -- more detours than the list is long do not fit into it
  have fits : ((List.range (files.length + 1)).map detour).Subperm files := by
    refine List.subperm_of_subset (.map detour_injective List.nodup_range) ?_
    intro path member
    obtain ⟨count, -, rfl⟩ := List.mem_map.mp member
    exact all count
  have lengths := fits.length_le
  rw [List.length_map, List.length_range] at lengths
  omega

end RelativeRoot
end ImportAudit
