import ImportAudit.Proofs.Search
import ImportAudit.Script.Mention
import ImportAudit.Script.Usage

/-! Every binding of a script can be judged. Patterns only move forward within their text, so no span
of a mention reaches past its end, and a binding read from a text is of a known kind. -/
namespace ImportAudit

namespace Pattern

variable {α β : Type} {p q : Pattern α}

/-- However the pattern matches, it moves forward within the text. -/
def Advances (p : Pattern α) : Prop :=
  ∀ before after found, found ∈ p.ways (.between before after) →
    ∃ taken rest, after = taken ++ rest ∧ found.2 = .between (before ++ taken) rest

namespace Advances

theorem pure (a : α) : (Pure.pure a : Pattern α).Advances := by
  intro before after found member
  rw [ways_pure, List.mem_singleton] at member
  exact ⟨[], after, rfl, by simp [member]⟩

theorem bind {next : α → Pattern β} (first : p.Advances) (later : ∀ a, (next a).Advances) :
    (p >>= next).Advances := by
  intro before after found member
  obtain ⟨a, place, start, finish⟩ := mem_ways_bind.mp member
  obtain ⟨taken, middle, rfl, moved⟩ := first before after (a, place) start
  obtain rfl : place = .between (before ++ taken) middle := moved
  obtain ⟨more, rest, rfl, moved⟩ := later a (before ++ taken) middle found finish
  exact ⟨taken ++ more, rest, by simp, by simp [moved]⟩

theorem either (first : p.Advances) (second : q.Advances) : (either p q).Advances := by
  intro before after found member
  rw [ways_either] at member
  rcases List.mem_append.mp member with member | member
  · exact first before after found member
  · exact second before after found member

theorem maybe {p : Pattern Unit} (advances : p.Advances) : (maybe p).Advances :=
  advances.either (.pure ())

theorem one (accepts : Char → Bool) : (one accepts).Advances := by
  intro before after found member
  obtain ⟨c, rest, rfl, -, rfl⟩ := mem_ways_one.mp member
  exact ⟨[c], rest, rfl, rfl⟩

theorem chars (text : Text) : (chars text).Advances := by
  intro before after found member
  obtain ⟨rest, rfl, rfl⟩ := mem_ways_chars.mp member
  exact ⟨text, rest, rfl, rfl⟩

theorem wordChars (text : Text) : (wordChars text).Advances := by
  intro before after found member
  obtain ⟨-, rest, rfl, rfl⟩ := mem_ways_wordChars.mp member
  exact ⟨text, rest, rfl, rfl⟩

theorem run (accepts : Char → Bool) : (run accepts).Advances := by
  intro before after found member
  obtain ⟨taken, rest, rfl, -, rfl⟩ := mem_ways_run member
  exact ⟨taken, rest, rfl, rfl⟩

theorem many (accepts : Char → Bool) : (many accepts).Advances := by
  intro before after found member
  obtain ⟨taken, rest, rfl, -, rfl⟩ := mem_ways_many.mp member
  exact ⟨taken, rest, rfl, rfl⟩

theorem fewUntil (accepts : Char → Bool) (holds : Option Char → Text → Bool) :
    (fewUntil accepts holds).Advances := by
  intro before after found member
  rw [ways_fewUntil] at member
  obtain ⟨place, listed, rfl⟩ := List.mem_map.mp member
  obtain ⟨taken, rest, rfl, -, rfl⟩ := Cursor.mem_through.mp (List.mem_filter.mp listed).1
  exact ⟨taken, rest, rfl, rfl⟩

theorem between (holds : Option Char → Option Char → Bool) : (between holds).Advances := by
  intro before after found member
  rw [ways_between] at member
  split at member
  · exact ⟨[], after, rfl, by simp [List.mem_singleton.mp member]⟩
  · cases member

theorem spanOf {p : Pattern Unit} (advances : p.Advances) : (spanOf p).Advances := by
  intro before after found member
  rw [ways_spanOf] at member
  obtain ⟨inner, listed, rfl⟩ := List.mem_map.mp member
  exact advances before after inner listed

theorem stop_le (advances : p.Advances) {text : Text} {found : Match α}
    (member : found ∈ p.all text) : found.span.stop ≤ text.length := by
  obtain ⟨before, after, place, rfl, first, span, -⟩ := first_of_mem_all member
  obtain ⟨taken, rest, rfl, moved⟩ := advances before after _ first.mem
  obtain rfl : place = .between (before ++ taken) rest := moved
  simp [span]

theorem fits (advances : p.Advances) {text : Text} {found : Match α}
    (member : found ∈ p.all text) : Text.Fits text found.span :=
  fun _ => advances.stop_le member

end Advances
end Pattern

namespace Script
open Pattern

theorem specifier_advances : specifier.Advances := by
  have between (quote : Char) : (quoted quote).Advances :=
    .bind (.one _) fun _ => .bind (.spanOf (.bind (.one _) fun _ => .run _)) fun _ =>
      .bind (.one _) fun _ => .pure _
  exact (between _).either (between _)

theorem typeModifier_advances : typeModifier.Advances :=
  .maybe (.bind (.chars _) fun _ => .bind (.one _) fun _ => .many _)

theorem clauseText_advances : clauseText.Advances :=
  .bind (.one _) fun _ => .either (.pure _) (.bind (.one _) fun _ => .fewUntil _ _)

theorem clauseImport_advances : clauseImport.Advances :=
  .bind (.wordChars _) fun _ => .bind (.bind (.one _) fun _ => .many _) fun _ =>
    .bind typeModifier_advances fun _ => .bind (.spanOf clauseText_advances) fun _ =>
      .bind (.run _) fun _ => .bind (.wordChars _) fun _ => .bind (.run _) fun _ =>
        .bind specifier_advances fun _ => .pure _

theorem effectImport_advances : effectImport.Advances :=
  .bind (.wordChars _) fun _ => .bind (.run _) fun _ => specifier_advances

theorem braced_advances : braced.Advances :=
  .bind (.one _) fun _ => .bind (.spanOf (.run _)) fun _ => .bind (.one _) fun _ => .pure _

theorem starExport_advances : starExport.Advances :=
  .bind (.one _) fun _ => .maybe (.bind (.run _) fun _ => .bind (.chars _) fun _ =>
    .bind (.bind (.one _) fun _ => .run _) fun _ => .bind (.one _) fun _ => .many _)

theorem reexport_advances : reexport.Advances :=
  .bind (.wordChars _) fun _ => .bind (.run _) fun _ => .bind typeModifier_advances fun _ =>
    .bind (.either starExport_advances (.bind braced_advances fun _ => .pure _)) fun _ =>
      .bind (.run _) fun _ => .bind (.chars _) fun _ => .bind (.run _) fun _ => specifier_advances

theorem moduleCall_advances (word : String) : (moduleCall word).Advances :=
  .bind (.wordChars _) fun _ => .bind (.run _) fun _ => .bind (.one _) fun _ =>
    .bind (.run _) fun _ => .bind specifier_advances fun _ => .bind (.run _) fun _ =>
      .bind (.one _) fun _ => .pure _

theorem importSpans_fit {text : Text} {span : Span} (member : span ∈ importSpans text) :
    Text.Fits text span := by
  rcases List.mem_append.mp member with member | member
  · obtain ⟨found, listed, rfl⟩ := List.mem_map.mp member
    exact clauseImport_advances.fits listed
  · obtain ⟨found, listed, rfl⟩ := List.mem_map.mp member
    exact effectImport_advances.fits listed

/-- The kinds of bindings that a text can hold. -/
def BindingKind.IsKnown : BindingKind → Prop
  | unrecognized _ => False
  | _ => True

theorem clauseBindings_kind {line : Nat → Int} {clause : Text} {binding : Binding}
    (member : binding ∈ clauseBindings line clause) :
    binding.kind ∈ [.defaultExport, .wholeModule, .named] := by
  unfold clauseBindings at member
  simp only [List.mem_append] at member
  rcases member with (member | member) | member
  · unfold defaultBinding at member
    split at member
    · cases member
    · split at member
      · cases member
      · rw [List.mem_singleton.mp member]
        exact List.mem_cons_self
  · unfold namespaceBinding at member
    split at member
    · cases member
    · rw [List.mem_singleton.mp member]
      exact List.mem_cons_of_mem _ List.mem_cons_self
  · unfold namedBindings at member
    split at member
    · cases member
    · obtain ⟨item, -, bound⟩ := List.mem_filterMap.mp member
      obtain ⟨found, -, rfl⟩ := Option.map_eq_some_iff.mp bound
      exact List.mem_of_getLast? rfl

theorem clauseBindings_known {line : Nat → Int} {clause : Text} {binding : Binding}
    (member : binding ∈ clauseBindings line clause) : binding.kind.IsKnown := by
  have kind := clauseBindings_kind member
  simp only [List.mem_cons, List.not_mem_nil, or_false] at kind
  rcases kind with kind | kind | kind <;> simp [kind, BindingKind.IsKnown]

/-- A mention within the text, with bindings of known kinds. -/
structure Mention.IsSound (text : Text) (mention : Mention) : Prop where
  fits : Text.Fits text mention.span
  known : ∀ binding ∈ mention.bindings, binding.kind.IsKnown

theorem mention_isSound {text : Text} {mention : Mention} (member : mention ∈ mentions text) :
    mention.IsSound text := by
  rw [mentions, List.mem_mergeSort] at member
  simp only [mentionsByForm, List.mem_append, List.mem_map] at member
  rcases member with
    (((⟨found, listed, rfl⟩ | ⟨found, listed, rfl⟩) | ⟨found, listed, rfl⟩) |
      ⟨found, listed, rfl⟩) | ⟨found, listed, rfl⟩
  · exact ⟨clauseImport_advances.fits listed, fun binding => clauseBindings_known⟩
  · exact ⟨effectImport_advances.fits listed, by simp [Mention.ofBare]⟩
  · exact ⟨reexport_advances.fits listed, by simp [Mention.ofBare]⟩
  · exact ⟨(moduleCall_advances _).fits listed, by simp [Mention.ofCall, BindingKind.IsKnown]⟩
  · exact ⟨(moduleCall_advances _).fits listed, by simp [Mention.ofCall, BindingKind.IsKnown]⟩

theorem isBindingUsed_total {text : Text} {span : Span} {binding : Binding}
    (fits : Text.Fits text span) (known : binding.kind.IsKnown) :
    ∃ used, isBindingUsed text span binding = .ok used := by
  have statements : text.blank? (importSpans text) = some (text.blank (importSpans text)) :=
    if_pos fun _ => importSpans_fit
  have mention : text.blank? [span] = some (text.blank [span]) := if_pos (by simpa using fits)
  unfold isBindingUsed isNamespaceUsed isModuleWordUsed
  rw [statements, mention]
  cases kind : binding.kind with
  | unrecognized label => simp [kind, BindingKind.IsKnown] at known
  | wholeModule => exact ⟨_, rfl⟩
  | defaultExport => exact ⟨_, rfl⟩
  | named => exact ⟨_, rfl⟩
  | requireCall => exact ⟨_, rfl⟩
  | importCall => exact ⟨_, rfl⟩

end Script
end ImportAudit
