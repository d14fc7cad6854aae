import ImportAudit.Proofs.ImportCheck
import ImportAudit.Proofs.Mentions

/-! On which line a binding stands. A name is found by searches one inside the other: a clause in the
text, a list in the clause, an item in the list, a name in the item. Each offset counts from the
stretch before it, and their sum is the offset in the text of an occurrence of the name. So no binding
of a text lacks a line, and each is reported at its own. -/
namespace ImportAudit

namespace Text

variable {text word : Text} {span : Span} {offset : Nat}

/-- The text reads `word` from an offset on. -/
def ReadsAt (text word : Text) (offset : Nat) : Prop := word <+: text.drop offset

theorem readsAt_append (before word after : Text) :
    ReadsAt (before ++ (word ++ after)) word before.length := by
  unfold ReadsAt
  rw [List.drop_left]
  exact List.prefix_append word after

/-- What a stretch reads, the text reads as far behind the start of the stretch. -/
theorem ReadsAt.of_slice (reads : (text.slice span).ReadsAt word offset) :
    text.ReadsAt word (span.start + offset) := by
  unfold ReadsAt slice at reads
  rw [List.drop_take, List.drop_drop] at reads
  exact reads.trans (List.take_prefix _ _)

theorem ReadsAt.le_stop (reads : (text.slice span).ReadsAt word offset) (nonempty : word ≠ []) :
    span.start + offset + word.length ≤ span.stop := by
  have some : 0 < word.length := List.length_pos_iff.mpr nonempty
  have short := reads.length_le
  simp only [slice, List.length_drop, List.length_take] at short
  omega

theorem lineOf_mono (text : Text) {first second : Nat} (le : first ≤ second) :
    text.lineOf first ≤ text.lineOf second := by
  rw [lineOf_eq, lineOf_eq]
  have before : text.take first <+: text.take second := List.take_prefix_take_left le
  have fewer := before.sublist.count_le '\n'
  omega

theorem one_le_lineOf (text : Text) (offset : Nat) : 1 ≤ text.lineOf offset := by
  rw [lineOf_eq]
  omega

end Text

namespace Pattern

variable {α β : Type} {p : Pattern α} {part : α → Span}

theorem first_of_firstBetween {before after : Text} {found : Match α}
    (matched : p.firstBetween before after = some found) :
    ∃ passed rest place, after = passed ++ rest ∧
      p.First (.between (before ++ passed) rest) found.value place := by
  induction after generalizing before with
  | nil =>
      rw [firstBetween, firstFrom] at matched
      split at matched
      · rename_i here
        obtain ⟨place, first, -⟩ := First.of_matchAt? (here.trans matched)
        exact ⟨[], [], place, rfl, by simpa [Cursor.between] using first⟩
      · cases matched
  | cons c after ih =>
      rw [firstBetween, firstFrom] at matched
      split at matched
      · rename_i here
        obtain ⟨place, first, -⟩ := First.of_matchAt? (here.trans matched)
        exact ⟨[], c :: after, place, rfl, by simpa [Cursor.between] using first⟩
      · have later : p.firstBetween (before ++ [c]) after = some found := by
          simpa [firstBetween] using matched
        obtain ⟨passed, rest, place, rfl, first⟩ := ih later
        exact ⟨c :: passed, rest, place, rfl, by simpa using first⟩

/-- The leftmost match is the preferred way at its place. -/
theorem first_of_first? {text : Text} {found : Match α} (matched : p.first? text = some found) :
    ∃ before after place, text = before ++ after ∧
      p.First (.between before after) found.value place :=
  @first_of_firstBetween _ p [] text found matched

/-- However the pattern matches, its value holds the stretch of a name. -/
def Finds (p : Pattern α) (part : α → Span) : Prop :=
  ∀ before after found, found ∈ p.ways (.between before after) →
    ∃ left, ∃ name : Script.Identifier, ∃ right, before ++ after = left ++ (name.text ++ right) ∧
      part found.1 = ⟨left.length, (left ++ name.text).length⟩

namespace Finds

theorem identifier : Script.identifier.Finds id := by
  intro before after found way
  obtain ⟨name, rest, rfl, rfl⟩ := Script.mem_ways_identifier.mp way
  exact ⟨before, name, rest, rfl, rfl⟩

/-- The name is found in what follows. -/
theorem after {next : α → Pattern β} {part : β → Span} (first : p.Advances)
    (later : ∀ a, (next a).Finds part) : (p >>= next).Finds part := by
  intro before rest found way
  obtain ⟨a, place, start, finish⟩ := mem_ways_bind.mp way
  obtain ⟨taken, rest, rfl, moved⟩ := first before rest (a, place) start
  obtain rfl : place = .between (before ++ taken) rest := moved
  obtain ⟨left, name, right, split, span⟩ := later a (before ++ taken) rest found finish
  exact ⟨left, name, right, by rw [← split, List.append_assoc], span⟩

/-- The name is found in the first part, and the value of what follows keeps it. -/
theorem before {next : α → Pattern β} {kept : β → Span} (first : p.Finds part)
    (keeps : ∀ a cursor, ∀ found ∈ (next a).ways cursor, kept found.1 = part a) :
    (p >>= next).Finds kept := by
  intro before rest found way
  obtain ⟨a, place, start, finish⟩ := mem_ways_bind.mp way
  rw [keeps a place found finish]
  exact first before rest (a, place) start

theorem readsAt (finds : p.Finds part) (before after : Text) {found : α × Cursor}
    (way : found ∈ p.ways (.between before after)) :
    ∃ name : Script.Identifier, (before ++ after).slice (part found.1) = name.text ∧
      (before ++ after).ReadsAt name.text (part found.1).start := by
  obtain ⟨left, name, right, split, span⟩ := finds before after found way
  refine ⟨name, ?_, ?_⟩
  · rw [split, span, ← List.append_assoc]
    exact Text.slice_append left name.text right
  · rw [split, span]
    exact Text.readsAt_append left name.text right

end Finds
end Pattern

namespace Script
open Pattern Text

theorem defaultName_finds : defaultName.Finds id := by
  refine .after (.run _) fun _ => .before .identifier ?_
  intro span cursor found way
  obtain ⟨⟨⟩, place, -, way⟩ := mem_ways_bind.mp way
  obtain ⟨⟨⟩, place, -, way⟩ := mem_ways_bind.mp way
  rw [List.mem_singleton.mp way]

theorem namespaceName_finds : namespaceName.Finds id :=
  .after (.one _) fun _ => .after (.run _) fun _ => .after (.chars _) fun _ =>
    .after (.bind (.one _) fun _ => .run _) fun _ => .identifier

/-- The name that an item binds: the alias where there is one. -/
def boundSpan (value : Span × Option Span) : Span := value.2.getD value.1

theorem namedItem_finds : namedItem.Finds boundSpan := by
  refine .after (.run _) fun _ => .after typeModifier_advances fun _ => ?_
  intro before after found way
  obtain ⟨own, place, named, way⟩ := mem_ways_bind.mp way
  obtain ⟨renamed, place', optional, way⟩ := mem_ways_bind.mp way
  obtain ⟨⟨⟩, _, -, way⟩ := mem_ways_bind.mp way
  obtain ⟨⟨⟩, _, -, way⟩ := mem_ways_bind.mp way
  obtain rfl := List.mem_singleton.mp way
  unfold maybe? at optional
  rw [ways_either, List.mem_append, ways_map, List.mem_map] at optional
  rcases optional with ⟨⟨other, _⟩, aliased, ⟨⟩⟩ | none
  · -- The alias is looked for behind the item's own name.
    have behind : (identifier >>= fun _ => blankRun1 >>= fun _ => literal "as" >>= fun _ =>
        blankRun1 >>= fun _ => identifier).Finds id := by
      refine .after ?_ fun _ => .after (.bind (.one _) fun _ => .run _) fun _ =>
        .after (.chars _) fun _ => .after (.bind (.one _) fun _ => .run _) fun _ => .identifier
      exact .spanOf (.bind (.one _) fun _ => .many _)
    exact behind before after (other, _) (mem_ways_bind.mpr ⟨own, place, named, aliased⟩)
  · obtain ⟨rfl, -⟩ := Prod.mk.inj (List.mem_singleton.mp none)
    exact Finds.identifier before after (own, place) named

/-- The local name of a binding stands in a text, at an offset with the line of the binding. -/
def Binding.StandsIn (line : Nat → Int) (text : Text) (binding : Binding) : Prop :=
  ∃ name : Identifier, ∃ offset, binding.localName.toList = name.text ∧
    text.ReadsAt name.text offset ∧ binding.line = line offset

/-- A binding of a stretch stands in the whole text, with the lines counted from its start. -/
theorem Binding.StandsIn.of_slice {line : Nat → Int} {text : Text} {span : Span} {binding : Binding}
    (stands : binding.StandsIn (fun offset => line (span.start + offset)) (text.slice span)) :
    binding.StandsIn line text := by
  obtain ⟨name, offset, same, reads, line⟩ := stands
  exact ⟨name, span.start + offset, same, reads.of_slice, line⟩

section Clauses

variable {line : Nat → Int} {clause : Text} {binding : Binding}

theorem defaultBinding_standsIn (member : binding ∈ defaultBinding line clause) :
    binding.StandsIn line clause := by
  unfold defaultBinding at member
  split at member
  · cases member
  · rename_i found matched
    split at member
    · cases member
    · obtain rfl := List.mem_singleton.mp member
      obtain ⟨place, first, -⟩ := First.of_matchAt? (matched : defaultName.matchAt? (.start clause) = _)
      obtain ⟨name, word, reads⟩ := defaultName_finds.readsAt [] clause first.mem
      exact ⟨name, _, by simpa [sameNameBinding, wordAt] using word, reads, rfl⟩

theorem namespaceBinding_standsIn (member : binding ∈ namespaceBinding line clause) :
    binding.StandsIn line clause := by
  unfold namespaceBinding at member
  split at member
  · cases member
  · rename_i found matched
    obtain rfl := List.mem_singleton.mp member
    obtain ⟨before, after, place, rfl, first⟩ := first_of_first? matched
    obtain ⟨name, word, reads⟩ := namespaceName_finds.readsAt before after first.mem
    exact ⟨name, _, by simpa [sameNameBinding, wordAt] using word, reads, rfl⟩

theorem itemBinding?_standsIn (bound : itemBinding? line clause = some binding) :
    binding.StandsIn line clause := by
  obtain ⟨found, matched, rfl⟩ := Option.map_eq_some_iff.mp bound
  obtain ⟨place, first, -⟩ := First.of_matchAt? (matched : namedItem.matchAt? (.start clause) = _)
  obtain ⟨name, word, reads⟩ := namedItem_finds.readsAt [] clause first.mem
  exact ⟨name, _, by simpa [wordAt, boundSpan] using word, reads, rfl⟩

theorem namedBindings_standsIn (member : binding ∈ namedBindings line clause) :
    binding.StandsIn line clause := by
  unfold namedBindings at member
  split at member
  · cases member
  · rename_i list _
    obtain ⟨item, -, bound⟩ := List.mem_filterMap.mp member
    -- The item lies in the list, and the list in the clause.
    have inItem := itemBinding?_standsIn bound
    simp only [Nat.add_assoc] at inItem
    exact .of_slice (.of_slice inItem)

theorem clauseBindings_standsIn (member : binding ∈ clauseBindings line clause) :
    binding.StandsIn line clause := by
  unfold clauseBindings at member
  simp only [List.mem_append] at member
  rcases member with (member | member) | member
  · exact defaultBinding_standsIn member
  · exact namespaceBinding_standsIn member
  · exact namedBindings_standsIn member

end Clauses

theorem clauseImport_encloses_clause : clauseImport.Encloses ClauseImport.clause := by
  refine .after (.wordChars _) fun _ => .after (.bind (.one _) fun _ => .many _) fun _ =>
    .after typeModifier_advances fun _ => .before (.spanOf _) (.spanOf clauseText_advances) ?_ ?_
  · intro clause
    exact .bind (.run _) fun _ => .bind (.wordChars _) fun _ => .bind (.run _) fun _ =>
      .bind specifier_advances fun _ => .pure _
  · intro clause cursor found way
    obtain ⟨⟨⟩, place, -, way⟩ := mem_ways_bind.mp way
    obtain ⟨⟨⟩, place, -, way⟩ := mem_ways_bind.mp way
    obtain ⟨⟨⟩, place, -, way⟩ := mem_ways_bind.mp way
    obtain ⟨target, place, -, way⟩ := mem_ways_bind.mp way
    rw [List.mem_singleton.mp way, id]

/-- The local name of a binding stands within a mention, on the line of the binding. -/
structure Mention.Places (text : Text) (mention : Mention) (binding : Binding) (offset : Nat) : Prop where
  start_le : mention.span.start ≤ offset
  le_stop : offset + binding.localName.length ≤ mention.span.stop
  reads : text.ReadsAt binding.localName.toList offset
  line_eq : binding.line = text.lineOf offset

theorem Form.exists_places {text : Text} {mention : Mention} {binding : Binding}
    (member : mention ∈ clauseImport.mentions text) (bound : binding ∈ mention.bindings) :
    ∃ offset, mention.Places text binding offset := by
  obtain ⟨found, listed, rfl⟩ := List.mem_map.mp member
  obtain ⟨before, after, place, rfl, first, span, -⟩ := first_of_mem_all listed
  obtain ⟨starts, stops⟩ := clauseImport_encloses_clause before after _ first.mem
  obtain ⟨name, offset, same, reads, line⟩ := clauseBindings_standsIn bound
  have ends := reads.le_stop name.nonempty
  refine ⟨found.value.clause.start + offset, ?_, ?_, ?_, line⟩
  · rw [Mention.ofClauseImport, span]
    exact Nat.le_trans starts (Nat.le_add_right _ _)
  · rw [Mention.ofClauseImport, span, ← String.length_toList, same]
    exact Nat.le_trans ends stops
  · rw [same]
    exact reads.of_slice

/-- Every binding of a mention has the line of a place within it; that of a call is where the call
starts. -/
theorem Form.exists_line {form : Form} {text : Text} {mention : Mention} {binding : Binding}
    (member : mention ∈ form.mentions text) (bound : binding ∈ mention.bindings) :
    ∃ offset, mention.span.start ≤ offset ∧ offset ≤ mention.span.stop ∧
      binding.line = text.lineOf offset := by
  have forward := (shapes_of_mem member).start_lt
  cases form with
  | clauseImport =>
      obtain ⟨offset, places⟩ := exists_places member bound
      exact ⟨offset, places.start_le, Nat.le_of_add_right_le places.le_stop, places.line_eq⟩
  | effectImport | reexport => cases kind_of_mem member bound
  | requireCall | importCall =>
      obtain ⟨found, -, rfl⟩ := List.mem_map.mp member
      refine ⟨found.span.start, Nat.le_refl _, Nat.le_of_lt forward, ?_⟩
      rw [List.mem_singleton.mp bound]

/-- Only imports with a clause bind names of their own. -/
theorem Form.eq_clauseImport {form : Form} {text : Text} {mention : Mention} {binding : Binding}
    (member : mention ∈ form.mentions text) (bound : binding ∈ mention.bindings)
    (kind : binding.kind ∈ clauseImport.binds) : form = clauseImport := by
  have made := kind_of_mem member bound
  cases form with
  | clauseImport => rfl
  | effectImport | reexport => cases made
  | requireCall | importCall =>
      rw [List.mem_singleton.mp made] at kind
      simp [binds] at kind

end Script

namespace Source
open Script

/-- Each link of the source was read from its text, on some disk. -/
def IsExtracted (source : Source) : Prop :=
  ∀ link ∈ source.links, ∃ disk root extensions importer,
    link ∈ linksOf disk root extensions importer source.text

section Extraction

variable {disk : Disk} {root importer : Path} {extensions : List String} {text : Text} {link : Link}
  {binding : Binding} (listed : link ∈ linksOf disk root extensions importer text)
include listed

theorem line_eq_of_mem : link.line = text.lineOf link.span.start := by
  obtain ⟨mention, -, linked⟩ := List.mem_filterMap.mp listed
  rw [(link?_eq_some linked).2.2]

theorem exists_places_of_mem (bound : binding ∈ link.bindings)
    (kind : binding.kind ∈ Form.clauseImport.binds) :
    ∃ offset, link.mention.Places text binding offset := by
  obtain ⟨form, found⟩ := exists_form listed
  obtain rfl := Form.eq_clauseImport found bound kind
  exact Form.exists_places found bound

theorem line_bounds_of_mem (bound : binding ∈ link.bindings) :
    link.line ≤ binding.line ∧ binding.line ≤ text.lineOf link.span.stop ∧ 1 ≤ binding.line := by
  obtain ⟨form, found⟩ := exists_form listed
  obtain ⟨offset, starts, stops, line⟩ := Form.exists_line found bound
  have first : text.lineOf link.span.start ≤ text.lineOf offset := text.lineOf_mono starts
  have last : text.lineOf offset ≤ text.lineOf link.span.stop := text.lineOf_mono stops
  have positive := text.one_le_lineOf offset
  rw [line_eq_of_mem listed, line]
  omega

end Extraction

theorem IsExtracted.isSound {source : Source} (extracted : source.IsExtracted) : source.IsSound := by
  intro link listed
  obtain ⟨disk, root, extensions, importer, member⟩ := extracted link listed
  obtain ⟨mention, mentioned, linked⟩ := List.mem_filterMap.mp member
  have sound := mention_isSound mentioned
  rw [(link?_eq_some linked).2.2]
  exact ⟨sound.fits, sound.known⟩

/-- No binding that was read lacks a line, so none is reported at the line of its link. -/
theorem IsExtracted.unusedBindings_eq {source : Source} (extracted : source.IsExtracted) :
    source.unusedBindings = source.links.flatMap fun link =>
      (source.unusedOf link).map fun binding => ⟨source.path, link.target, binding, binding.line⟩ := by
  unfold unusedBindings
  refine List.flatMap_congr fun link listed => List.map_congr_left fun binding unused => ?_
  obtain ⟨disk, root, extensions, importer, member⟩ := extracted link listed
  have positive := (line_bounds_of_mem member (List.mem_of_mem_filter unused)).2.2
  rw [if_neg (by omega)]

end Source

/-- A binding that a clause makes has the line of an occurrence of its local name within the import, and
every binding has a line between those of the start and the end of its link. The check of imports
reports each unused binding at its own line. -/
theorem linksOf_binding_lines :
    (∀ (disk : Disk) (root : Path) (extensions : List String) (importer : Path) (text : Text),
      ∀ link ∈ Source.linksOf disk root extensions importer text, ∀ binding ∈ link.bindings,
        (binding.kind ∈ Script.Form.clauseImport.binds → ∃ offset,
          link.span.start ≤ offset ∧ offset + binding.localName.length ≤ link.span.stop ∧
          binding.localName.toList <+: text.drop offset ∧ binding.line = text.lineOf offset) ∧
        link.line ≤ binding.line ∧ binding.line ≤ text.lineOf link.span.stop ∧ 1 ≤ binding.line) ∧
    ∀ (disk : Disk) (sources : List Source) (codebase : Codebase),
      (∀ source ∈ sources, source.IsExtracted) →
      ∃ check, checkImports disk sources codebase = .ok check ∧
        check.bindings = sources.flatMap fun source => source.links.flatMap fun link =>
          (source.unusedOf link).map fun binding =>
            ⟨source.path, link.target, binding, binding.line⟩ := by
  constructor
  · intro disk root extensions importer text link listed binding bound
    refine ⟨fun kind => ?_, Source.line_bounds_of_mem listed bound⟩
    obtain ⟨offset, places⟩ := Source.exists_places_of_mem listed bound kind
    exact ⟨offset, places.start_le, places.le_stop, places.reads, places.line_eq⟩
  · intro disk sources codebase extracted
    obtain ⟨check, checked, records⟩ :=
      checkImports_records disk codebase fun source member => (extracted source member).isSound
    refine ⟨check, checked, ?_⟩
    rw [records.bindings, List.nil_append]
    exact List.flatMap_congr fun source member => (extracted source member).unusedBindings_eq

/-- A list over several lines, with an alias on a line of its own. -/
def aliasedBelow : Text := "import d, \x7b\n  a as\n    b,\n\x7d from './b'\n".toList

def aliasedBelowDisk : Disk := (default : Disk).put (.parse "/b.ts") []

/-- The source as it is read. -/
def aliasedBelowSource : Source :=
  ⟨.parse "/a.ts", aliasedBelow, [], [⟨.parse "/b.ts", "./b",
    [⟨.defaultExport, "d", "d", 1⟩, ⟨.named, "b", "a", 3⟩], 1, ⟨0, 38⟩⟩]⟩

theorem aliasedBelow_links :
    Source.linksOf aliasedBelowDisk (.parse "/") [".ts"] (.parse "/a.ts") aliasedBelow =
      aliasedBelowSource.links := by
  have sorted : Script.mentions aliasedBelow = Script.mentionsByForm aliasedBelow :=
    List.mergeSort_of_pairwise (by decide +kernel)
  rw [Source.linksOf, sorted]
  decide +kernel

/-- The alias is reported on the third line, where it stands. -/
theorem aliasedBelow_binding_lines :
    (∃ offset, 0 ≤ offset ∧ offset + "b".length ≤ 38 ∧ "b".toList <+: aliasedBelow.drop offset ∧
      (3 : Int) = aliasedBelow.lineOf offset) ∧
    ∃ check, checkImports aliasedBelowDisk [aliasedBelowSource] (.empty (.parse "/") [".ts"]) =
        .ok check ∧
      check.bindings =
        [⟨.parse "/a.ts", .parse "/b.ts", ⟨.defaultExport, "d", "d", 1⟩, 1⟩,
          ⟨.parse "/a.ts", .parse "/b.ts", ⟨.named, "b", "a", 3⟩, 3⟩] := by
  obtain ⟨located, reported⟩ := linksOf_binding_lines
  constructor
  · obtain ⟨link, listed, span, bound⟩ : ∃ link ∈ aliasedBelowSource.links, link.span = ⟨0, 38⟩ ∧
        ⟨.named, "b", "a", 3⟩ ∈ link.bindings := by decide +kernel
    rw [← aliasedBelow_links] at listed
    have found := (located _ _ _ _ _ link listed _ bound).1 (by simp [Script.Form.binds])
    rwa [span] at found
  · have extracted : ∀ source ∈ [aliasedBelowSource], source.IsExtracted := by
      intro source member link listed
      obtain rfl := List.mem_singleton.mp member
      exact ⟨aliasedBelowDisk, .parse "/", [".ts"], .parse "/a.ts", aliasedBelow_links ▸ listed⟩
    obtain ⟨check, checked, bindings⟩ := reported aliasedBelowDisk _ (.empty (.parse "/") [".ts"]) extracted
    refine ⟨check, checked, bindings.trans ?_⟩
    decide +kernel

end ImportAudit
