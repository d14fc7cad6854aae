import ImportAudit.Proofs.ImportCheck
import ImportAudit.Proofs.Resolution

/-! A codebase in use while the disk changes. Whatever is asked of it, in whatever order, it only
grows at its end, and what it holds at a path is the file that the first load of the path found, read
and linked as the disk was at that moment. -/
namespace ImportAudit

/-- Whether a message tells of a file that was read. -/
def isParsedMessage (message : String) : Bool := "Parsed:".toList.isPrefixOf message.toList

theorem isParsedMessage_append {first : String}
    (long : "Parsed:".toList.length ≤ first.toList.length) (rest : String) :
    isParsedMessage (first ++ rest) = isParsedMessage first := by
  rw [isParsedMessage, isParsedMessage, Bool.eq_iff_iff, List.isPrefixOf_iff_prefix,
    List.isPrefixOf_iff_prefix, String.toList_append]
  constructor
  · intro marked
    exact List.prefix_of_prefix_length_le marked (List.prefix_append _ _) long
  · intro marked
    exact marked.trans (List.prefix_append _ _)

/-- No other event has such a message: the words at the start tell the events apart. -/
theorem isParsedMessage_message (event : Event) :
    isParsedMessage event.message = event.isParsed := by
  unfold Event.message Event.isParsed
  cases event with
  | skipped | scanned | entryMissing | unreached | effectAssumed =>
      dsimp only
      exact (isParsedMessage_append (by decide +kernel) _).trans (by decide +kernel)
  | parsed | reached | unusedBinding =>
      simp only [String.append_assoc]
      exact (isParsedMessage_append (by decide +kernel) _).trans (by decide +kernel)

theorem filter_messages (events : List Event) :
    (events.map Event.message).filter isParsedMessage =
      (events.filter Event.isParsed).map Event.message := by
  rw [List.filter_map]
  exact congrArg _ (List.filter_congr fun event _ => isParsedMessage_message event)

namespace Codebase

/-- What can be asked of a codebase. -/
inductive Request
  | load (path : Path)
  | loadAll (paths : List Path)
  | exportsOf (path : Path)
  | reach (entries : List Path)
  | checkImports (paths : List Path)

namespace Request

/-- The codebase after a request, and what was noticed meanwhile. -/
def perform (disk : Disk) (codebase : Codebase) :
    Request → Except Script.Fault (Codebase × List Event)
  | load path =>
      let step := codebase.load disk path
      return (step.codebase, step.events)
  | loadAll paths =>
      let step := codebase.loadAll disk paths
      return (step.codebase, step.events)
  | exportsOf path =>
      let step := codebase.exportsOf disk path
      return (step.codebase, step.events)
  | reach entries =>
      let step := codebase.reach disk entries
      return (step.codebase, step.events)
  | checkImports paths => do
      let loaded := codebase.loadAll disk paths
      let check ← ImportAudit.checkImports disk loaded.value loaded.codebase
      return (check.codebase, loaded.events ++ check.events)

/-- The paths that a request loads, in order: those it names, the files that a walk visits, and the
targets of idle links that a check asks for their exports. -/
def loads (disk : Disk) (codebase : Codebase) : Request → List Path
  | load path | exportsOf path => [path]
  | loadAll paths => paths
  | reach entries => (codebase.reach disk entries).value
  | checkImports paths =>
      paths ++ (codebase.loadAll disk paths).value.flatMap Source.idleTargets

theorem perform_loads {codebase : Codebase} (disk : Disk) (request : Request)
    (sound : ∀ source ∈ codebase.sources, source.IsSound) :
    ∃ after events, request.perform disk codebase = .ok (after, events) ∧
      Loads codebase ((request.loads disk codebase).map (disk, ·)) after events := by
  cases request with
  | load path | exportsOf path => exact ⟨_, _, rfl, .load disk path codebase⟩
  | loadAll paths => exact ⟨_, _, rfl, .loadAll disk paths codebase⟩
  | reach entries => exact ⟨_, _, rfl, .reach disk entries codebase⟩
  | checkImports paths =>
      have loaded := Loads.loadAll disk paths codebase
      have legible : ∀ source ∈ (codebase.loadAll disk paths).value, source.IsSound :=
        forall_loadAll sound fun _ _ _ => onDisk?_isSound
      obtain ⟨check, checked, records⟩ :=
        checkImports_records disk (codebase.loadAll disk paths).codebase legible
      obtain ⟨events, noted, asked⟩ := records.loads
      refine ⟨check.codebase, (codebase.loadAll disk paths).events ++ check.events, ?_, ?_⟩
      · simp only [perform, checked]
        rfl
      · rw [noted, loads, List.map_append]
        exact loaded.trans asked

end Request

/-- A request at a moment, and the disk as it is then. From one moment to the next the disk may be
written to, and files may be removed from it, in any way. -/
structure Moment where
  disk : Disk
  request : Request

/-- The codebase with nothing read. -/
def cleared (codebase : Codebase) : Codebase := { codebase with sources := [] }

/-- A codebase in use: what it holds, what was noticed, and all loads so far, each with the disk of
its moment. -/
structure Session where
  codebase : Codebase
  events : List Event
  loads : List (Disk × Path)

namespace Session

variable {session next final : Session}

def start (codebase : Codebase) : Session := ⟨codebase.cleared, [], []⟩

def serve (session : Session) (moment : Moment) : Except Script.Fault Session := do
  let (codebase, events) ← moment.request.perform moment.disk session.codebase
  return ⟨codebase, session.events ++ events,
    session.loads ++ (moment.request.loads moment.disk session.codebase).map (moment.disk, ·)⟩

/-- Serves the moments of a history, one after the other. -/
def run (history : List Moment) (session : Session) : Except Script.Fault Session :=
  history.foldlM serve session

/-- A session that has gone on, and changed its codebase by loads only. -/
def Continues (session next : Session) : Prop :=
  ∃ loads events, next.loads = session.loads ++ loads ∧ next.events = session.events ++ events ∧
    Loads session.codebase loads next.codebase events

namespace Continues

theorem refl (session : Session) : Continues session session :=
  ⟨[], [], by simp, by simp, .refl session.codebase rfl⟩

theorem trans (first : Continues session next) (second : Continues next final) :
    Continues session final := by
  obtain ⟨loads, events, loaded, noted, came⟩ := first
  obtain ⟨later, more, loadedMore, notedMore, went⟩ := second
  refine ⟨loads ++ later, events ++ more, ?_, ?_, came.trans went⟩
  · rw [loadedMore, loaded, List.append_assoc]
  · rw [notedMore, noted, List.append_assoc]

theorem sound (continues : Continues session next)
    (before : ∀ source ∈ session.codebase.sources, source.IsSound) :
    ∀ source ∈ next.codebase.sources, source.IsSound := by
  obtain ⟨loads, events, -, -, loaded⟩ := continues
  rw [loaded.codebase]
  exact forall_loadEach before fun _ _ _ => onDisk?_isSound

theorem sources_grow (continues : Continues session next) :
    session.codebase.sources <+: next.codebase.sources := by
  obtain ⟨loads, events, -, -, loaded⟩ := continues
  obtain ⟨fresh, sources, -⟩ := loadEach_adds loads session.codebase
  rw [loaded.codebase, sources]
  exact List.prefix_append _ _

end Continues

theorem serve_continues (sound : ∀ source ∈ session.codebase.sources, source.IsSound)
    (moment : Moment) : ∃ next, session.serve moment = .ok next ∧ Continues session next := by
  obtain ⟨after, events, performed, loaded⟩ :=
    moment.request.perform_loads moment.disk sound
  refine ⟨⟨after, session.events ++ events, _⟩, ?_, _, events, rfl, rfl, loaded⟩
  rw [serve, performed]
  rfl

theorem run_continues (sound : ∀ source ∈ session.codebase.sources, source.IsSound)
    (history : List Moment) :
    ∃ final, session.run history = .ok final ∧ Continues session final := by
  induction history generalizing session with
  | nil => exact ⟨session, rfl, .refl session⟩
  | cons moment history ih =>
      obtain ⟨next, served, step⟩ := serve_continues sound moment
      obtain ⟨final, rest, steps⟩ := ih (step.sound sound)
      refine ⟨final, ?_, step.trans steps⟩
      rw [run, List.foldlM_cons, served]
      exact rest

variable {codebase : Codebase}

theorem start_sound : ∀ source ∈ (start codebase).codebase.sources, source.IsSound := by
  simp [start, cleared]

/-- A history comes to its loads. -/
theorem run_loads (codebase : Codebase) (history : List Moment) :
    ∃ session, (start codebase).run history = .ok session ∧
      Loads codebase.cleared session.loads session.codebase session.events := by
  obtain ⟨session, ran, loads, events, loaded, noted, came⟩ := run_continues start_sound history
  obtain rfl : session.loads = loads := by simpa [start] using loaded
  obtain rfl : session.events = events := by simpa [start] using noted
  exact ⟨session, ran, came⟩

/-- The first load of a file reads it. -/
theorem run_load {disk : Disk} {path : Path} {bytes : Text.Utf8.Bytes}
    (there : disk.node path = .ok (.file bytes)) :
    ∃ session, (start codebase).run [⟨disk, .load path⟩] = .ok session ∧
      session.codebase.sources = [Source.parse disk codebase.root codebase.extensions path bytes] := by
  refine ⟨_, rfl, ?_⟩
  change (codebase.cleared.load disk path).codebase.sources = _
  rw [load_sources]
  simp [unread?, onDisk?, find?, cleared, there]

theorem run_grows {earlier later : List Moment}
    (ran : (start codebase).run (earlier ++ later) = .ok session) :
    ∃ before, (start codebase).run earlier = .ok before ∧
      before.codebase.sources <+: session.codebase.sources := by
  obtain ⟨before, ranBefore, toBefore⟩ := run_continues start_sound earlier
  obtain ⟨final, ranOn, onward⟩ := run_continues (toBefore.sound start_sound) later
  have whole : (start codebase).run (earlier ++ later) = .ok final := by
    rw [run, List.foldlM_append, ← run, ranBefore]
    exact ranOn
  obtain rfl : session = final := Except.ok.inj (ran.symm.trans whole)
  exact ⟨before, ranBefore, onward.sources_grow⟩

end Session

section Loads

variable {path : Path} {loads : List (Disk × Path)} {codebase loaded : Codebase} {events : List Event}

theorem isFile_of_foundOn? {disk : Disk} (first : foundOn? path loads = some disk) :
    disk.isFile path = true := by
  obtain ⟨load, found, rfl⟩ := Option.map_eq_some_iff.mp first
  have holds := List.find?_some found
  simp only [Bool.and_eq_true] at holds
  exact holds.2

theorem Loads.find?_eq (came : Loads codebase.cleared loads loaded events) (path : Path) :
    loaded.find? path = (foundOn? path loads).bind fun disk => codebase.onDisk? disk path := by
  rw [came.codebase, find?_loadEach]
  rfl

theorem Loads.isSome_find? (came : Loads codebase.cleared loads loaded events)
    (path : Path) : (loaded.find? path).isSome = (foundOn? path loads).isSome := by
  rw [came.find?_eq]
  cases first : foundOn? path loads with
  | none => rfl
  | some disk =>
      have file := isFile_of_foundOn? first
      rw [← onDisk?_isSome] at file
      exact file

/-- The source at a path is the file that the first load of the path found, and its links are as the
disk was then. -/
theorem Loads.source_of_find? {source : Source}
    (came : Loads codebase.cleared loads loaded events)
    (read : loaded.find? path = some source) :
    source.path = path ∧
      ∃ disk bytes, foundOn? path loads = some disk ∧ disk.read path = .ok bytes ∧
        source.text = Source.textOf bytes ∧ source.exports = Script.exports source.text ∧
        source.links = Source.linksOf disk codebase.root codebase.extensions path source.text ∧
        ∀ link ∈ source.links,
          link.target.isWithin codebase.root = true ∧ disk.isFile link.target = true := by
  rw [came.find?_eq] at read
  obtain ⟨disk, first, there⟩ := Option.bind_eq_some_iff.mp read
  obtain ⟨bytes, content, rfl⟩ := onDisk?_eq_some there
  refine ⟨rfl, disk, bytes, first, Disk.read_of_node content, rfl, rfl, rfl, ?_⟩
  intro link listed
  obtain ⟨resolved, within⟩ := onDisk?_link there listed
  exact ⟨within, Resolution.resolve?_isFile resolved⟩

theorem Loads.messages (came : Loads codebase.cleared loads loaded events) :
    (events.map Event.message).filter isParsedMessage =
      loaded.sources.map fun source => source.parsedEvent.message := by
  obtain ⟨fresh, sources, told⟩ := loadEach_adds loads codebase.cleared
  rw [filter_messages, came.noted, told, came.codebase, sources, List.map_map]
  rfl

end Loads

/-- However the disk changes meanwhile, every request is served. The codebase grows at its end only,
with one source for each path; it holds a path if and only if some load of it found a file, and then
the text, the exports and the links of that file on the disk of the first such load. One message
tells of each source. -/
theorem Session.run_keeps (codebase : Codebase) (history : List Moment) :
    ∃ session, (Session.start codebase).run history = .ok session ∧
      (∀ earlier later, history = earlier ++ later →
        ∃ before, (Session.start codebase).run earlier = .ok before ∧
          before.codebase.sources <+: session.codebase.sources) ∧
      session.codebase.paths.Nodup ∧
      session.codebase = (codebase.cleared.loadEach session.loads).codebase ∧
      (∀ path, (session.codebase.find? path).isSome = (foundOn? path session.loads).isSome) ∧
      (∀ path source, session.codebase.find? path = some source → source.path = path ∧
        ∃ disk bytes, foundOn? path session.loads = some disk ∧ disk.read path = .ok bytes ∧
          source.text = Source.textOf bytes ∧ source.exports = Script.exports source.text ∧
          source.links = Source.linksOf disk codebase.root codebase.extensions path source.text ∧
          ∀ link ∈ source.links,
            link.target.isWithin codebase.root = true ∧ disk.isFile link.target = true) ∧
      (session.events.map Event.message).filter isParsedMessage =
        session.codebase.sources.map fun source => source.parsedEvent.message := by
  obtain ⟨session, ran, came⟩ := Session.run_loads codebase history
  have start : codebase.cleared.paths.Nodup := List.nodup_nil
  refine ⟨session, ran, ?_, ?_, came.codebase, came.isSome_find?, ?_, came.messages⟩
  · rintro earlier later rfl
    exact Session.run_grows ran
  · rw [came.codebase]
    exact nodup_loadEach start session.loads
  · intro path source read
    exact came.source_of_find? read

end Codebase
end ImportAudit
