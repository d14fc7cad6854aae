import ImportAudit.Proofs.SettingsFields

/-! Which values are settings, and which settings they are. A value counts as nothing or is a mapping; a
mapping is accepted by its keys and by the kinds of its values, however they were read and whatever else
the disk holds. -/
namespace ImportAudit

namespace Settings

variable {fields : Fields} {key : String} {value : Yaml.Value}

section Accepts

/-- What the document of a mapping is. -/
structure Describes (working file : Path) (fields : Fields) (document : Document) : Prop where
  root : ∃ text : String, GivesRoot fields text ∧
    document.root.val = (working.join (file.parent.join (.parse text))).resolve
  absolute : document.root.val.anchor = .root
  normal : "." ∉ document.root.val.parts ∧ ".." ∉ document.root.val.parts
  entries : ChoosesEntries fields document.entries
  entries_ne : document.entries ≠ []
  extensions : ChoosesExtensions fields document.extensions
  extensions_ne : document.extensions ≠ []
  dotted : ∀ extension ∈ document.extensions, extension.head? = some (.char '.')
  ignored : ChoosesIgnored fields document.ignored

theorem ChoosesEntries.ne_nil {entries : List Codes} (chosen : ChoosesEntries fields entries) :
    entries ≠ [] := by
  obtain ⟨given, -, rfl⟩ := chosen
  rcases given with _ | (_ | ⟨first, texts⟩) <;> simp

theorem ChoosesExtensions.ne_nil {extensions : List Codes}
    (chosen : ChoosesExtensions fields extensions) : extensions ≠ [] := by
  obtain ⟨_ | texts, -, chosen⟩ := chosen
  · rw [chosen]
    exact List.cons_ne_nil _ _
  · obtain ⟨some, each⟩ := chosen
    rw [ne_eq, ← List.length_eq_zero_iff, ← each.length_eq, List.length_eq_zero_iff]
    exact some

theorem ChoosesExtensions.head {extensions : List Codes} (chosen : ChoosesExtensions fields extensions) :
    ∀ extension ∈ extensions, extension.head? = some (.char '.') := by
  obtain ⟨_ | texts, -, chosen⟩ := chosen
  · rw [chosen]
    decide
  · rw [forall₂_dots_iff.mp chosen.2]
    intro extension member
    obtain ⟨text, -, rfl⟩ := List.mem_map.mp member
    exact (dots_iff.mpr rfl).head

variable {working file : Path} {document : Document}

theorem Writes.describes (writes : Writes working file fields document) :
    Describes working file fields document := by
  obtain ⟨_, root, ⟨path, resolved⟩, ⟨text, rfl, -, same⟩, entries, chosen, extensions, chosen', ignored,
    chosen'', rfl⟩ := writes
  exact {
    root := ⟨text, root, same⟩
    absolute := resolved.1
    normal := ⟨fun dot => (path.proper "." dot).2.1 rfl, resolved.2⟩
    entries := chosen
    entries_ne := chosen.ne_nil
    extensions := chosen'
    extensions_ne := chosen'.ne_nil
    dotted := chosen'.head
    ignored := chosen'' }

end Accepts

section Load

variable {disk : Disk} {working file : Path} {bytes : Text.Utf8.Bytes}

/-- The mapping that a value stands for; one that counts as nothing stands for the empty mapping. -/
inductive StandsFor : Yaml.Value → Fields → Prop
  | falsy {value : Yaml.Value} : value.Falsy → StandsFor value []
  | mapping (fields : Fields) : StandsFor (.mapping fields) fields

theorem ofValue_cases (working file : Path) (value : Yaml.Value) :
    (∃ fields, StandsFor value fields ∧ Document.ofValue working file value = Document.ofFields working file fields) ∨
      (∀ fields, ¬ StandsFor value fields) ∧ Document.ofValue working file value = .error (.notMapping file) := by
  unfold Document.ofValue
  by_cases void : value.isVoid = true
  · rw [if_pos void]
    exact .inl ⟨[], .falsy (Yaml.Value.falsy_iff.mpr void), rfl⟩
  · rw [if_neg void]
    split
    · exact .inl ⟨_, .mapping _, rfl⟩
    · rename_i other
      refine .inr ⟨?_, rfl⟩
      rintro fields (falsy | _)
      · exact void (Yaml.Value.falsy_iff.mp falsy)
      · exact other fields rfl

theorem StandsFor.unique {others : Fields} (stands : StandsFor value fields)
    (stands' : StandsFor value others) : fields = others := by
  rcases stands with falsy | _
  · rcases stands' with _ | _
    · rfl
    · cases falsy
      rfl
  · rcases stands' with falsy | _
    · cases falsy
      rfl
    · rfl

theorem StandsFor.distinct (stands : StandsFor value fields) (distinct : value.HasDistinctKeys) :
    Yaml.Value.DistinctKeys fields := by
  rcases stands with _ | _
  · exact .nil
  · exact distinct fields rfl

section Distinct

variable (distinct : value.HasDistinctKeys)
include distinct

theorem ofValue_describes {document : Document}
    (made : Document.ofValue working file value = .ok document) :
    ∃ fields, StandsFor value fields ∧ Describes working file fields document := by
  rcases ofValue_cases working file value with ⟨fields, stands, same⟩ | ⟨-, failed⟩
  · rw [same, ofFields_eq_ok_iff (stands.distinct distinct)] at made
    exact ⟨fields, stands, made.2.describes⟩
  · rw [failed] at made
    cases made

end Distinct

theorem load_eq_ofValue {read : Document.Reader}
    (stored : disk.readAs (working.join file) file = .ok bytes) (yielded : read bytes = .ok value) :
    Document.load read disk working file = Document.ofValue working file value := by
  simp only [Document.load, stored, yielded, Except.mapError, bind, Except.bind]

/-- What a reader of distinct keys loads is described by some mapping. -/
theorem exists_describes {read : Document.Reader} {document : Document}
    (distinct : ∀ bytes value, read bytes = .ok value → value.HasDistinctKeys)
    (loaded : Document.load read disk working file = .ok document) :
    ∃ fields, Describes working file fields document := by
  cases stored : disk.readAs (working.join file) file with
  | error fault => simp [Document.load, stored, Except.mapError, bind, Except.bind] at loaded
  | ok bytes =>
      cases yielded : read bytes with
      | error fault =>
          simp [Document.load, stored, yielded, Except.mapError, bind, Except.bind] at loaded
      | ok value =>
          rw [load_eq_ofValue stored yielded] at loaded
          obtain ⟨fields, -, described⟩ := ofValue_describes (distinct bytes value yielded) loaded
          exact ⟨fields, described⟩

/-- The extensions of settings that are loaded have a dot in front. -/
theorem load_dotted {settings : Settings} (loaded : load disk working file = .ok settings)
    {extension : String} (listed : extension ∈ settings.extensions) :
    extension.toList.head? = some '.' := by
  rw [load] at loaded
  cases found : Document.load Yaml.Value.ofBytes disk working file with
  | error fault => simp [found, Except.map] at loaded
  | ok document =>
      obtain rfl : document.settings = settings := by simpa [found, Except.map] using loaded
      obtain ⟨fields, described⟩ :=
        exists_describes (fun _ _ => Yaml.Value.ofBytes_distinct) found
      obtain ⟨text, written, named⟩ := List.mem_filterMap.mp listed
      obtain rfl := Codes.string?_eq_some_iff.mp named
      simpa [Codes.ofString, Codes.ofText] using described.dotted _ written

end Load

end Settings
end ImportAudit
