import ImportAudit.Proofs.Codebase

/-! The depth-first walk in its recursive form: a file that was visited or lies outside the root is
passed by; any other is marked and read, and its links are explored before what is left to explore.
What one exploration does to the files visited and the sources read is said here once. -/
namespace ImportAudit.Codebase

variable {disk : Disk} {path : Path} {paths : List Path}

/-- The targets of the links of the source at a path, in the order of its text. -/
def targetsAt (disk : Disk) (codebase : Codebase) (path : Path) : List Path :=
  ((codebase.sourceAt? disk path).map Source.links).getD [] |>.map Link.target

theorem Agrees.targetsAt {before after : Codebase} (agrees : Agrees disk before after) (path : Path) :
    after.targetsAt disk path = before.targetsAt disk path := by
  rw [Codebase.targetsAt, Codebase.targetsAt, agrees.sourceAt?]

/-- How far an exploration has come: the files visited, in order, and the codebase. -/
structure Trip where
  visited : List Path
  codebase : Codebase

namespace Trip

def enter (disk : Disk) (path : Path) (trip : Trip) : Trip :=
  ⟨trip.visited ++ [path], (trip.codebase.load disk path).codebase⟩

/-- A trip that has gone on and visited `fresh` in this order, each file once, and read what of it
was not read before. -/
structure Extends (disk : Disk) (before after : Trip) (fresh : List Path) : Prop where
  visited : after.visited = before.visited ++ fresh
  codebase : after.codebase = before.codebase.adding disk fresh
  unvisited : ∀ path ∈ fresh, path ∉ before.visited
  nodup : fresh.Nodup
  within : ∀ path ∈ fresh, path.isWithin before.codebase.root = true

namespace Extends

variable {before middle after : Trip} {fresh first second : List Path}

theorem refl (disk : Disk) (trip : Trip) : Extends disk trip trip [] :=
  ⟨by simp, by simp, by simp, by simp, by simp⟩

theorem enter {trip : Trip} (unvisited : path ∉ trip.visited)
    (within : path.isWithin trip.codebase.root = true) :
    Extends disk trip (trip.enter disk path) [path] :=
  ⟨rfl, load_codebase, by simpa using unvisited, by simp, by simpa using within⟩

theorem trans (left : Extends disk before middle first) (right : Extends disk middle after second) :
    Extends disk before after (first ++ second) := by
  have apart : ∀ path ∈ second, path ∉ before.visited ∧ path ∉ first := by
    intro path member
    simpa [left.visited] using right.unvisited path member
  have root : middle.codebase.root = before.codebase.root := by rw [left.codebase, adding_root]
  refine ⟨?_, ?_, ?_, ?_, ?_⟩
  · rw [right.visited, left.visited, List.append_assoc]
  · rw [right.codebase, left.codebase, adding_append fun path member => (apart path member).2]
  · intro path member
    rcases List.mem_append.mp member with member | member
    · exact left.unvisited path member
    · exact (apart path member).1
  · refine List.nodup_append.mpr ⟨left.nodup, right.nodup, ?_⟩
    rintro path inFirst _ inSecond rfl
    exact (apart path inSecond).2 inFirst
  · intro path member
    rcases List.mem_append.mp member with member | member
    · exact left.within path member
    · exact root ▸ right.within path member

theorem agrees (extension : Extends disk before after fresh) :
    Agrees disk before.codebase after.codebase :=
  extension.codebase ▸ adding_agrees disk fresh before.codebase

theorem subset (extension : Extends disk before after fresh) : before.visited ⊆ after.visited := by
  rw [extension.visited]
  exact List.subset_append_left _ _

end Extends
end Trip

/-- Explores some files one after the other, each as far as its links lead. -/
inductive Explores (disk : Disk) : List Path → Trip → Trip → Prop
  | done (trip : Trip) : Explores disk [] trip trip
  | passBy {path : Path} {paths : List Path} {trip final : Trip}
      (known : path ∈ trip.visited ∨ path.isWithin trip.codebase.root = false)
      (others : Explores disk paths trip final) : Explores disk (path :: paths) trip final
  | enter {path : Path} {paths : List Path} {trip middle final : Trip}
      (unvisited : path ∉ trip.visited) (within : path.isWithin trip.codebase.root = true)
      (inner : Explores disk (trip.codebase.targetsAt disk path) (trip.enter disk path) middle)
      (others : Explores disk paths middle final) : Explores disk (path :: paths) trip final

namespace Explores

variable {trip middle final other : Trip} {first second : List Path}

theorem exists_extends (explored : Explores disk paths trip final) :
    ∃ fresh, Trip.Extends disk trip final fresh := by
  induction explored with
  | done trip => exact ⟨[], .refl disk trip⟩
  | passBy _ _ ih => exact ih
  | enter unvisited within _ _ inner others =>
      obtain ⟨below, inner⟩ := inner
      obtain ⟨beside, others⟩ := others
      exact ⟨_, ((Trip.Extends.enter unvisited within).trans inner).trans others⟩

theorem agrees (explored : Explores disk paths trip final) :
    Agrees disk trip.codebase final.codebase :=
  explored.exists_extends.elim fun _ extension => extension.agrees

theorem subset (explored : Explores disk paths trip final) : trip.visited ⊆ final.visited :=
  explored.exists_extends.elim fun _ extension => extension.subset

theorem unique (explored : Explores disk paths trip final) (again : Explores disk paths trip other) :
    final = other := by
  induction explored generalizing other with
  | done trip =>
      cases again
      rfl
  | passBy known _ ih =>
      cases again with
      | passBy _ others => exact ih others
      | enter unvisited within _ _ =>
          rcases known with visited | outside
          · exact absurd visited unvisited
          · simp [within] at outside
  | enter unvisited within _ _ inner others =>
      cases again with
      | passBy known _ =>
          rcases known with visited | outside
          · exact absurd visited unvisited
          · simp [within] at outside
      | enter _ _ innerAgain othersAgain =>
          cases inner innerAgain
          exact others othersAgain

theorem append_iff :
    Explores disk (first ++ second) trip final ↔
      ∃ middle, Explores disk first trip middle ∧ Explores disk second middle final := by
  induction first generalizing trip with
  | nil =>
      constructor
      · intro explored
        exact ⟨trip, .done trip, explored⟩
      · rintro ⟨_, ⟨⟩, explored⟩
        exact explored
  | cons path paths ih =>
      constructor
      · intro explored
        cases explored with
        | passBy known others =>
            obtain ⟨middle, left, right⟩ := ih.mp others
            exact ⟨middle, .passBy known left, right⟩
        | enter unvisited within inner others =>
            obtain ⟨middle, left, right⟩ := ih.mp others
            exact ⟨middle, .enter unvisited within inner left, right⟩
      · rintro ⟨middle, left, right⟩
        cases left with
        | passBy known others => exact .passBy known (ih.mpr ⟨middle, others, right⟩)
        | enter unvisited within inner others =>
            exact .enter unvisited within inner (ih.mpr ⟨middle, others, right⟩)

theorem of_known (known : ∀ path ∈ paths,
    path ∈ trip.visited ∨ path.isWithin trip.codebase.root = false) :
    Explores disk paths trip trip := by
  induction paths with
  | nil => exact .done trip
  | cons path paths ih =>
      exact .passBy (known path List.mem_cons_self)
        (ih fun path member => known path (List.mem_cons_of_mem _ member))

/-- Files visited before may be left out: they would be passed by whenever their turn comes. -/
theorem of_filter {visited : List Path} (before : visited ⊆ trip.visited)
    (explored : Explores disk (paths.filter (· ∉ visited)) trip final) :
    Explores disk paths trip final := by
  induction paths generalizing trip with
  | nil => exact explored
  | cons path paths ih =>
      by_cases seen : path ∈ visited
      · rw [List.filter_cons_of_neg (by simpa using seen)] at explored
        exact .passBy (Or.inl (before seen)) (ih before explored)
      · rw [List.filter_cons_of_pos (by simpa using seen)] at explored
        cases explored with
        | passBy known others => exact .passBy known (ih before others)
        | enter unvisited within inner others =>
            have later : visited ⊆ _ := fun path member =>
              inner.subset (List.mem_append_left _ (before member))
            exact .enter unvisited within inner (ih later others)

/-- Every file asked for is visited, unless it lies outside the root. -/
theorem visits (explored : Explores disk paths trip final) (member : path ∈ paths)
    (within : path.isWithin trip.codebase.root = true) : path ∈ final.visited := by
  induction explored with
  | done => simp at member
  | passBy known others ih =>
      rcases List.mem_cons.mp member with rfl | member
      · rcases known with visited | outside
        · exact others.subset visited
        · simp [within] at outside
      · exact ih member within
  | @enter head paths trip middle final unvisited inside inner others _ ih =>
      rcases List.mem_cons.mp member with rfl | member
      · exact others.subset (inner.subset (List.mem_append_right _ List.mem_cons_self))
      · have entered : Agrees disk trip.codebase (trip.enter disk head).codebase :=
          load_agrees disk head trip.codebase
        exact ih member (by rw [inner.agrees.root, entered.root]; exact within)

/-- From every file that an exploration adds, it has gone on along all links within the root. -/
theorem follows (explored : Explores disk paths trip final) (visited : path ∈ final.visited)
    (unvisited : path ∉ trip.visited) {target : Path}
    (linked : target ∈ trip.codebase.targetsAt disk path)
    (within : target.isWithin trip.codebase.root = true) : target ∈ final.visited := by
  induction explored with
  | done => exact absurd visited unvisited
  | passBy _ _ ih => exact ih visited unvisited linked within
  | @enter head paths trip middle final _ _ inner others innerIh othersIh =>
      have entered : Agrees disk trip.codebase (trip.enter disk head).codebase :=
        load_agrees disk head trip.codebase
      have toMiddle := entered.trans inner.agrees
      -- A file is added at the head itself, below it, or by the paths beside it.
      by_cases before : path ∈ middle.visited
      · apply others.subset
        by_cases self : path = head
        · subst path
          exact inner.visits linked (by rw [entered.root]; exact within)
        · refine innerIh before ?_ (by rw [entered.targetsAt]; exact linked)
            (by rw [entered.root]; exact within)
          simpa [Trip.enter, self] using unvisited
      · exact othersIh visited before (by rw [toMiddle.targetsAt]; exact linked)
          (by rw [toMiddle.root]; exact within)

/-- An exploration does not leave a set that its links do not lead out of. -/
theorem stays (inside : Path → Prop) (explored : Explores disk paths trip final)
    (start : ∀ path ∈ paths, path.isWithin trip.codebase.root = true → inside path)
    (step : ∀ path, inside path → ∀ target ∈ trip.codebase.targetsAt disk path,
      target.isWithin trip.codebase.root = true → inside target)
    (visited : path ∈ final.visited) : path ∈ trip.visited ∨ inside path := by
  induction explored generalizing path with
  | done => exact Or.inl visited
  | passBy _ _ ih =>
      exact ih (fun path member => start path (List.mem_cons_of_mem _ member)) step visited
  | @enter head paths trip middle final unvisited within inner others innerIh othersIh =>
      have entered : Agrees disk trip.codebase (trip.enter disk head).codebase :=
        load_agrees disk head trip.codebase
      have toMiddle := entered.trans inner.agrees
      have headInside := start head List.mem_cons_self within
      have innerStays : ∀ path ∈ middle.visited, path ∈ trip.visited ∨ inside path := by
        intro path member
        simp only [entered.targetsAt, entered.root] at innerIh
        rcases innerIh (step head headInside) step member with marked | below
        · rcases List.mem_append.mp marked with before | self
          · exact Or.inl before
          · exact Or.inr (List.mem_singleton.mp self ▸ headInside)
        · exact Or.inr below
      simp only [toMiddle.targetsAt, toMiddle.root] at othersIh
      rcases othersIh (fun path member => start path (List.mem_cons_of_mem _ member)) step visited
        with before | beside
      · exact innerStays path before
      · exact Or.inr beside

/-- Explorations from codebases that agree visit the same files in the same order. -/
theorem of_agrees (explored : Explores disk paths trip final) (visited : other.visited = trip.visited)
    (agrees : Agrees disk trip.codebase other.codebase) :
    ∃ last, Explores disk paths other last ∧ last.visited = final.visited := by
  -- The codebases keep agreeing, which the induction needs and its user does not.
  suffices ∃ last, Explores disk paths other last ∧ last.visited = final.visited ∧
      Agrees disk final.codebase last.codebase by
    obtain ⟨last, again, same, -⟩ := this
    exact ⟨last, again, same⟩
  induction explored generalizing other with
  | done trip => exact ⟨other, .done other, visited, agrees⟩
  | passBy known _ ih =>
      obtain ⟨last, others, same⟩ := ih visited agrees
      refine ⟨last, .passBy ?_ others, same⟩
      rw [visited, agrees.root]
      exact known
  | @enter head paths trip middle final unvisited within _ _ innerIh othersIh =>
      have entered : Agrees disk (trip.enter disk head).codebase (other.enter disk head).codebase :=
        ((load_agrees disk head _).symm.trans agrees).trans (load_agrees disk head _)
      have marked : (other.enter disk head).visited = (trip.enter disk head).visited :=
        congrArg (· ++ [head]) visited
      obtain ⟨between, inner, same, further⟩ := innerIh marked entered
      obtain ⟨last, others, result⟩ := othersIh same further
      refine ⟨last, .enter ?_ ?_ ?_ others, result⟩
      · rw [visited]
        exact unvisited
      · rw [agrees.root]
        exact within
      · rw [agrees.targetsAt]
        exact inner

end Explores
end ImportAudit.Codebase
