import ImportAudit.Proofs.Resolution

/-! How a specifier is resolved, stage by stage. The path that it names is followed piece by piece: an empty
piece and `.` stay, `..` goes up as far as there is something above, and any other piece goes down. Then
the path itself, the path with an extension and the index files are tried in this order. Trying the
first index file of a folder once more changes nothing. -/
namespace ImportAudit

/-- A text behind that of a folder, with a slash between them unless the folder's text ends in one. -/
def Text.under (folder text : Text) : Text :=
  if folder.getLast? = some '/' then folder ++ text else folder ++ '/' :: text

namespace Path

/-- Where one piece of a written path leads to from some components. -/
def follow (reached : List String) (piece : Text) : List String :=
  if piece = [] ∨ piece = ['.'] then reached
  else if piece = ['.', '.'] then reached.dropLast
  else reached ++ [String.ofList piece]

/-- Where the pieces of a text between slashes lead to from some components. -/
def followAll (reached : List String) (text : Text) : List String :=
  (text.split '/').foldl follow reached

theorem mem_of_mem_foldl_follow {pieces : List Text} {reached : List String} {part : String}
    (member : part ∈ pieces.foldl follow reached) :
    part ∈ reached ∨ part.toList ∈ pieces ∧ part.toList ≠ [] ∧ part.toList ≠ ['.'] ∧
      part.toList ≠ ['.', '.'] := by
  induction pieces generalizing reached with
  | nil => exact .inl member
  | cons piece pieces ih =>
      rcases ih member with here | ⟨listed, proper⟩
      · unfold follow at here
        split at here
        · exact .inl here
        · rename_i moves
          split at here
          · exact .inl (List.dropLast_subset _ here)
          · rename_i down
            rcases List.mem_append.mp here with before | last
            · exact .inl before
            · obtain rfl := List.mem_singleton.mp last
              rw [String.toList_ofList]
              exact .inr ⟨List.mem_cons_self, fun empty => moves (.inl empty),
                fun dot => moves (.inr dot), down⟩
      · exact .inr ⟨List.mem_cons_of_mem _ listed, proper⟩

theorem followAll_proper (text : Text) : ∀ part ∈ followAll [] text, IsComponent part := by
  intro part member
  rcases mem_of_mem_foldl_follow member with none | ⟨listed, notEmpty, notDot, -⟩
  · cases none
  · refine ⟨?_, ?_, Text.not_mem_of_mem_split listed⟩
    · rintro rfl
      exact notEmpty rfl
    · rintro rfl
      exact notDot rfl

theorem parent_not_mem_followAll (text : Text) : ".." ∉ followAll [] text := by
  intro member
  rcases mem_of_mem_foldl_follow member with none | ⟨-, -, -, down⟩
  · cases none
  · exact down rfl

/-- The path that a text leads to from the top. -/
def lexical (text : Text) : Path :=
  ⟨Anchor.ofText text, followAll [] text, followAll_proper text⟩

/-- Normalization follows the pieces one by one. -/
theorem normalizeParts_partsAmong {kept : List String} (clean : ".." ∉ kept) (pieces : List Text) :
    normalizeParts false kept (partsAmong pieces) = pieces.foldl follow kept.reverse := by
  induction pieces generalizing kept with
  | nil => rfl
  | cons piece pieces ih =>
      rw [List.foldl_cons, follow]
      by_cases stays : piece = [] ∨ piece = ['.']
      · have dropped : partsAmong (piece :: pieces) = partsAmong pieces := by
          rcases stays with rfl | rfl <;> rfl
        rw [dropped, if_pos stays, ih clean]
      · have kept_piece : partsAmong (piece :: pieces) = String.ofList piece :: partsAmong pieces := by
          obtain ⟨notEmpty, notDot⟩ := not_or.mp stays
          simp [partsAmong, notEmpty, notDot]
        rw [kept_piece, if_neg stays]
        by_cases up : piece = ['.', '.']
        · have parent : String.ofList piece = ".." := by rw [up]
          rw [if_pos up, parent]
          cases kept with
          | nil =>
              rw [normalizeParts, if_pos rfl]
              exact ih clean
          | cons last others =>
              obtain ⟨down, clean⟩ : ".." ≠ last ∧ ".." ∉ others := by simpa using clean
              rw [normalizeParts, if_pos rfl, if_neg (Ne.symm down), ih clean]
              simp
        · have down : String.ofList piece ≠ ".." := by
            intro same
            exact up (by simpa using congrArg String.toList same)
          rw [if_neg up, normalizeParts.eq_def]
          simp only [down, if_false]
          rw [ih (by simpa [Ne.symm down] using clean)]
          simp

theorem partsOf_under (folder text : Text) :
    partsOf (folder.under text) = partsOf folder ++ partsOf text := by
  unfold Text.under
  split
  · rename_i ends
    obtain ⟨start, rfl⟩ := List.getLast?_eq_some_iff.mp ends
    have closed : partsOf (start ++ ['/']) = partsOf start := by
      rw [partsOf_slash]
      exact List.append_nil _
    rw [closed, List.append_assoc]
    exact partsOf_slash start text
  · exact partsOf_slash folder text

/-- A text behind that of a folder is followed from where the folder is. -/
theorem followAll_under (folder text : Text) :
    followAll [] (folder.under text) = followAll (followAll [] folder) text := by
  unfold Text.under followAll
  split
  · rename_i ends
    obtain ⟨start, rfl⟩ := List.getLast?_eq_some_iff.mp ends
    have stays (reached : List String) : follow reached [] = reached := if_pos (.inl rfl)
    rw [List.append_assoc, List.singleton_append, Text.split_append_separator,
      Text.split_append_separator, List.foldl_append, List.foldl_append]
    simp [Text.split, stays]
  · rw [Text.split_append_separator, List.foldl_append]

/-- The text of an absolute folder and of a relative path behind it keep the folder's anchor. -/
theorem ofText_under {folder : Path} (absolute : folder.anchor ≠ .relative) {text : Text}
    (plain : text.head? ≠ some '/') :
    Anchor.ofText (Text.under folder.render.toList text) = folder.anchor := by
  have written : folder.render.toList =
      folder.anchor.render.toList ++ ("/".intercalate folder.parts).toList := by
    simp [render, absolute]
  have starts (tail : Text)
      (top : ("/".intercalate folder.parts).toList = [] → tail.head? ≠ some '/') :
      Anchor.ofText (folder.render.toList ++ tail) = folder.anchor := by
    rw [written, List.append_assoc]
    apply Anchor.ofText_render
    rw [List.head?_append]
    have head := head_intercalate folder.proper
    cases body : ("/".intercalate folder.parts).toList with
    | nil => simpa using top body
    | cons c rest => simpa [body] using head
  unfold Text.under
  split
  · exact starts text fun _ => plain
  · rename_i unclosed
    apply starts
    intro empty
    -- The text of the top of the disk ends in a slash.
    rw [written, empty, List.append_nil] at unclosed
    cases anchor : folder.anchor with
    | relative => exact absurd anchor absolute
    | root | doubleRoot => simp [anchor, Anchor.render] at unclosed

/-- `..` and a slash, some times. -/
def climb (count : Nat) : Text := (List.replicate count ['.', '.', '/']).flatten

theorem followAll_climb (count : Nat) (reached : List String) (text : Text) :
    followAll reached (climb count ++ text) = followAll (reached.take (reached.length - count)) text := by
  induction count generalizing reached with
  | zero => simp [climb]
  | succ count ih =>
      have up : followAll reached (climb (count + 1) ++ text) =
          followAll reached.dropLast (climb count ++ text) := by
        have written : climb (count + 1) ++ text = ['.', '.'] ++ '/' :: (climb count ++ text) := by
          simp [climb, List.replicate_succ]
        unfold followAll
        rw [written, Text.split_append_separator, List.foldl_append]
        rfl
      rw [up, ih, List.length_dropLast, List.dropLast_eq_take, List.take_take]
      congr 2
      omega

end Path

namespace Resolution

variable {disk : Disk} {extensions : List String} {importer target : Path} {specifier : String}

/-- The path that a specifier names: its text behind that of the importer's folder, followed piece by
piece. -/
def named (importer : Path) (specifier : String) : Path :=
  .lexical (Text.under importer.parent.render.toList specifier.toList)

theorem base_eq_named (absolute : importer.anchor ≠ .relative) (relative : isRelative specifier = true) :
    base importer specifier = named importer specifier := by
  have plain : specifier.toList.head? ≠ some '/' :=
    Anchor.ofText_eq_relative_iff.mp (parse_anchor_of_isRelative relative)
  have folder : Path.partsOf importer.parent.render.toList = importer.parent.parts :=
    congrArg Path.parts (Path.parse_render importer.parent)
  apply Path.ext
  · rw [base_anchor importer relative]
    exact (@Path.ofText_under importer.parent absolute _ plain).symm
  · have joined : (importer.parent.join (.parse specifier)).parts =
        Path.partsAmong ((Text.under importer.parent.render.toList specifier.toList).split '/') := by
      rw [← Path.partsOf_eq, Path.partsOf_under, folder, Path.join,
        if_pos (parse_anchor_of_isRelative relative)]
      rfl
    have anchored : (importer.parent.join (.parse specifier)).anchor = importer.anchor := by
      rw [Path.join, if_pos (parse_anchor_of_isRelative relative)]
      rfl
    simp only [base, Path.normalize, anchored, absolute, decide_false, joined]
    exact Path.normalizeParts_partsAmong List.not_mem_nil _

/-- The four stages: the file itself, an extension, an index file, and for a folder the index file with
the first extension. -/
def stages (disk : Disk) (extensions : List String) (path : Path) : Option Path :=
  if disk.isFile path then some path
  else
    ((extensions.map (withExtension path)).find? disk.isFile).or <|
      ((extensions.map (indexFile path)).find? disk.isFile).or <|
        if disk.isFolder path then (extensions.head?.map (indexFile path)).filter disk.isFile else none

/-- Every path that the four stages try, in their order. -/
def attempts (disk : Disk) (extensions : List String) (path : Path) : List Path :=
  candidates extensions path ++
    if disk.isFolder path then (extensions.head?.map (indexFile path)).toList else []

/-- What the last stage tries has been tried before. -/
theorem find?_attempts (disk : Disk) (extensions : List String) (path : Path) :
    (attempts disk extensions path).find? disk.isFile =
      (candidates extensions path).find? disk.isFile := by
  unfold attempts
  rw [List.find?_append]
  cases found : (candidates extensions path).find? disk.isFile with
  | some target => rfl
  | none =>
      rw [List.find?_eq_none] at found
      rw [Option.none_or, List.find?_eq_none]
      intro candidate listed
      apply found
      split at listed
      · cases extensions with
        | nil => cases listed
        | cons extension others =>
            obtain rfl : candidate = indexFile path extension := by simpa using listed
            simp [candidates]
      · cases listed

theorem find?_candidates (disk : Disk) (extensions : List String) (path : Path) :
    (candidates extensions path).find? disk.isFile = stages disk extensions path := by
  rw [← find?_attempts]
  unfold attempts candidates stages
  rw [List.cons_append, List.cons_append, List.find?_cons]
  cases here : disk.isFile path with
  | true => rfl
  | false =>
      simp only [List.find?_append, Option.or_assoc, Bool.false_eq_true, if_false]
      congr 2
      split
      · cases extensions with
        | nil => rfl
        | cons extension others =>
            cases index : disk.isFile (indexFile path extension) <;>
              simp [index, Option.filter]
      · rfl

theorem resolve?_eq_find? (disk : Disk) (extensions : List String)
    (absolute : importer.anchor ≠ .relative) (specifier : String) :
    resolve? disk extensions importer specifier =
      if isRelative specifier then
        (attempts disk extensions (named importer specifier)).find? disk.isFile
      else none := by
  unfold resolve?
  split
  · rename_i relative
    rw [base_eq_named absolute relative, find?_attempts]
  · rfl

/-- The first attempt at which there is a file. -/
theorem resolve?_eq_some_iff (absolute : importer.anchor ≠ .relative) :
    resolve? disk extensions importer specifier = some target ↔
      isRelative specifier = true ∧ disk.isFile target = true ∧ ∃ earlier later,
        attempts disk extensions (named importer specifier) = earlier ++ target :: later ∧
          ∀ candidate ∈ earlier, disk.isFile candidate = false := by
  rw [resolve?_eq_find? disk extensions absolute]
  cases relative : isRelative specifier with
  | false => simp
  | true => simp [List.find?_eq_some_iff_append]

theorem resolve?_eq_none_iff (absolute : importer.anchor ≠ .relative) :
    resolve? disk extensions importer specifier = none ↔ isRelative specifier = false ∨
      ∀ candidate ∈ attempts disk extensions (named importer specifier),
        disk.isFile candidate = false := by
  rw [resolve?_eq_find? disk extensions absolute]
  cases relative : isRelative specifier with
  | false => simp
  | true => simp

/-- A file is what every specifier stands for that names it. -/
theorem resolve?_of_named (absolute : importer.anchor ≠ .relative)
    (relative : isRelative specifier = true) (names : named importer specifier = target)
    (file : disk.isFile target = true) :
    resolve? disk extensions importer specifier = some target := by
  rw [resolve?_eq_some_iff absolute, names]
  exact ⟨relative, file, [], _, rfl, by simp⟩

/-- Climbing past the top of the disk starts again at the top. -/
theorem named_climb {count : Nat} (depth : (named importer ".").parts.length ≤ count) (rest : Text) :
    (named importer (.ofList (Path.climb count ++ rest))).parts = Path.followAll [] rest := by
  have top : (named importer ".").parts = Path.followAll [] importer.parent.render.toList :=
    Path.followAll_under _ _
  rw [top] at depth
  calc (named importer (.ofList (Path.climb count ++ rest))).parts
    _ = Path.followAll (Path.followAll [] importer.parent.render.toList) (Path.climb count ++ rest) := by
        rw [named, String.toList_ofList]
        exact Path.followAll_under _ _
    _ = Path.followAll [] rest := by
        rw [Path.followAll_climb, Nat.sub_eq_zero_of_le depth, List.take_zero]

/-- Seen from an absolute path a specifier is resolved in four stages, of which the last one changes
nothing: the result is the first file among the attempts, and there is none if the specifier is not
relative or no attempt is a file. Only the path that the specifier names counts. It has no component `.`
or `..`, and above the top of the disk is the top. A file found is found by every specifier that
names it. -/
theorem resolve?_by_stages (disk : Disk) (extensions : List String) {importer : Path}
    (absolute : importer.anchor ≠ .relative) (specifier : String) :
    (resolve? disk extensions importer specifier =
      if isRelative specifier then stages disk extensions (named importer specifier) else none) ∧
    (∀ target, resolve? disk extensions importer specifier = some target ↔
      isRelative specifier = true ∧ disk.isFile target = true ∧ ∃ earlier later,
        attempts disk extensions (named importer specifier) = earlier ++ target :: later ∧
          ∀ candidate ∈ earlier, disk.isFile candidate = false) ∧
    (resolve? disk extensions importer specifier = none ↔ isRelative specifier = false ∨
      ∀ candidate ∈ attempts disk extensions (named importer specifier),
        disk.isFile candidate = false) ∧
    (∀ path, (attempts disk extensions path).find? disk.isFile =
      (candidates extensions path).find? disk.isFile) ∧
    (∀ (other : Path) (specifier' : String), other.anchor ≠ .relative →
      isRelative specifier' = isRelative specifier →
      named other specifier' = named importer specifier →
      resolve? disk extensions other specifier' = resolve? disk extensions importer specifier) ∧
    ("." ∉ (named importer specifier).parts ∧ ".." ∉ (named importer specifier).parts) ∧
    (∀ count rest, (named importer ".").parts.length ≤ count →
      (named importer (.ofList (Path.climb count ++ rest))).parts = Path.followAll [] rest) ∧
    ∀ target, resolve? disk extensions importer specifier = some target →
      ∀ (other : Path) (specifier' : String), other.anchor ≠ .relative →
        isRelative specifier' = true → named other specifier' = target →
        resolve? disk extensions other specifier' = some target := by
  refine ⟨?_, fun target => resolve?_eq_some_iff absolute, resolve?_eq_none_iff absolute,
    find?_attempts disk extensions, ?_, ⟨?_, ?_⟩, fun count rest depth => named_climb depth rest, ?_⟩
  · rw [resolve?_eq_find? disk extensions absolute, find?_attempts, find?_candidates]
  · intro other specifier' absolute' relative names
    rw [resolve?_eq_find? disk extensions absolute', resolve?_eq_find? disk extensions absolute,
      relative, names]
  · intro member
    exact ((named importer specifier).proper "." member).2.1 rfl
  · exact Path.parent_not_mem_followAll _
  · intro target found other specifier' absolute' relative names
    exact resolve?_of_named absolute' relative names (resolve?_isFile found)

/-- A folder with an index file, beside a folder of the name that extensions would give. -/
def indexedFolder : Disk :=
  ((default : Disk).put (.parse "/src/foo/index.ts") []).makeFolder (.parse "/src/foo.js")

/-- A specifier that climbs past the top, and another one that names the file it leads to. -/
theorem indexedFolder_by_stages :
    resolve? indexedFolder [".js", ".ts"] (.parse "/src/pages/a.ts") "../../../../src//./foo/" =
        some (.parse "/src/foo/index.ts") ∧
      resolve? indexedFolder [".js", ".ts"] (.parse "/b.ts") "./src/foo/x/../index.ts" =
        some (.parse "/src/foo/index.ts") := by
  obtain ⟨staged, -, -, -, -, -, -, again⟩ := resolve?_by_stages indexedFolder [".js", ".ts"]
    (show (Path.parse "/src/pages/a.ts").anchor ≠ .relative by decide) "../../../../src//./foo/"
  have found : resolve? indexedFolder [".js", ".ts"] (.parse "/src/pages/a.ts")
      "../../../../src//./foo/" = some (.parse "/src/foo/index.ts") := by
    rw [staged]
    decide +kernel
  exact ⟨found, again _ found _ _ (by decide) (by decide) (by decide +kernel)⟩

end Resolution
end ImportAudit
