import Drac.Recordings.SegmentInvariant

/-
  Nothing captured is lost by the segment pipeline.

  It is lost where the clock steps back (the file in the making is not the last by name, or
  its name is that of an `.mp4`), where a recording is started beside another or finalized
  while it runs, where ffprobe accepts a remux that a crash or another task left partial,
  where a remux opens or removes an `.mp4` that another task has had accepted, and where one
opens an `.mp4` that another ffmpeg has open. `Kept`
  excludes these, each by a condition on the state before the step; in every run whose steps
  meet it, a `.ts` is removed only when it is remuxed and registered, and a row keeps its
  capture (`never_lost`).
-/

namespace Drac.Recordings.SegmentPipeline

open Runs

variable {s t : System} {config : Config}

/-! ## The turn of a loop -/

variable {i : Nat} {task : Task}

theorem Intact.goTo (h : Intact s) {old pc : Pc}
    (hget : s.tasks[i]? = some task) (hold : task.pc = old)
    (hpaths : ∀ path ∈ pc.paths, path ∈ old.paths) (hpc : PcHolds s pc) :
    Intact (goTo s i task pc) := by
  refine h.setTask hget rfl ?_ (h.tasks task (List.mem_of_getElem? hget)).registered hpc
  intro path hpath
  cases List.mem_append.mp hpath with
  | inl hin => exact Task.mem_paths hold (hpaths path hin)
  | inr hqueue => exact List.mem_append_right _ hqueue

theorem Intact.setKnown (h : Intact s) (owner : Owner) (path : SegmentPath) :
    Intact (s.setKnown owner path) := by
  cases owner with
  | scan pid final => exact h.congr rfl rfl rfl rfl rfl rfl rfl
  | recovery => exact h

@[simp] theorem setKnown_tasks (owner : Owner) (path : SegmentPath) :
    (s.setKnown owner path).tasks = s.tasks := by
  cases owner <;> rfl

@[simp] theorem setKnown_ts (owner : Owner) (path : SegmentPath) :
    (s.setKnown owner path).ts = s.ts := by
  cases owner <;> rfl

@[simp] theorem setKnown_rows (owner : Owner) (path : SegmentPath) :
    (s.setKnown owner path).rows = s.rows := by
  cases owner <;> rfl

theorem Intact.finishScan (h : Intact s) (hmem : task ∈ s.tasks) :
    Intact (finishScan s task.owner) := by
  unfold SegmentPipeline.finishScan
  split
  · next pid howner =>
    split
    · exact h
    · next proc hget =>
      have hlt : pid < s.procs.length := (List.getElem?_eq_some_iff.mp hget).1
      have hnotRunning : proc.running = false := by
        obtain ⟨proc', hget', hstarted⟩ := (h.tasks task hmem).owner pid howner
        rw [hget, Option.some.injEq] at hget'
        subst hget'
        by_contra hne
        exact hstarted (h.running pid proc hget (Bool.eq_true_of_not_eq_false hne))
      have hset : Intact (s.setProc pid { proc with finalize := .done }) := by
        refine h.setProc hget ?_ (fun hne => absurd rfl hne) (fun _ => nofun)
        intro hrunning
        have hcontra : proc.running = true := hrunning
        rw [hnotRunning] at hcontra
        cases hcontra
      have hdone : ∀ r, (s.setProc pid { proc with finalize := .done }).procs[pid]? = some r →
          r.finalize = .done := by
        intro r hr
        rw [System.setProc, List.getElem?_set_self hlt, Option.some.injEq] at hr
        rw [← hr]
      exact hset.leave hdone
  · exact h

@[simp] theorem finishScan_tasks (owner : Owner) : (finishScan s owner).tasks = s.tasks := by
  unfold finishScan
  split
  · split <;> rfl
  · rfl

@[simp] theorem finishScan_ts (owner : Owner) : (finishScan s owner).ts = s.ts := by
  unfold finishScan
  split
  · split <;> rfl
  · rfl

theorem beginRemux_holds (path : SegmentPath) : PcHolds s (beginRemux s path) := by
  unfold beginRemux
  split
  · trivial
  · split <;> trivial

theorem beginRemux_paths (path : SegmentPath) : (beginRemux s path).paths = [path] := by
  unfold beginRemux
  split
  · rfl
  · split <;> rfl

variable {candidate : Candidate}

theorem Intact.takeNext (h : Intact s)
    {rest : List Candidate} {pc : Pc} (hget : s.tasks[i]? = some task)
    (hqueue : task.queue = candidate :: rest)
    (hpaths : ∀ path ∈ pc.paths, path = candidate.path) (hpc : PcHolds s pc) :
    Intact (s.setTask i { task with queue := rest, pc := pc }) := by
  refine h.setTask hget rfl ?_ (h.tasks task (List.mem_of_getElem? hget)).registered hpc
  intro path hpath
  apply List.mem_append_right
  rw [hqueue, List.map_cons, List.mem_cons]
  cases List.mem_append.mp hpath with
  | inl hin => exact Or.inl (hpaths path hin)
  | inr hrest => exact Or.inr hrest

theorem Intact.finishTask (h : Intact s)
    (hget : s.tasks[i]? = some task) :
    Intact ((SegmentPipeline.finishScan s task.owner).setTask i { task with pc := .finished }) := by
  have hfinish := h.finishScan (List.mem_of_getElem? hget)
  exact hfinish.goTo (by rw [finishScan_tasks]; exact hget) rfl nofun trivial

theorem Intact.takeUp (h : Intact s) (hget : s.tasks[i]? = some task)
    (hnext : task.pc = .next) : Intact (takeUp s i task) := by
  unfold SegmentPipeline.takeUp
  split
  · exact h.finishTask hget
  · next candidate rest hqueue =>
    have hskip : ∀ {s' : System}, Intact s' → s'.tasks[i]? = some task →
        Intact (s'.setTask i { task with queue := rest }) := by
      intro s' h' hget'
      have hsame : ({ task with queue := rest } : Task) =
          { task with queue := rest, pc := .next } := by
        rw [← hnext]
      rw [hsame]
      exact h'.takeNext hget' hqueue nofun trivial
    have hbegin : Intact (s.setTask i
        { task with queue := rest, pc := beginRemux s candidate.path }) := by
      refine h.takeNext hget hqueue ?_ (beginRemux_holds _)
      intro path hpath
      rw [beginRemux_paths] at hpath
      exact List.mem_singleton.mp hpath
    dsimp only
    split
    · split
      · exact hskip h hget
      · split
        · exact hskip (h.setKnown _ _) (by rw [setKnown_tasks]; exact hget)
        · split
          · exact h.finishTask hget
          · split
            · exact hskip h hget
            · exact hbegin
    · split
      · exact hskip h hget
      · split
        · exact hskip h hget
        · split
          · split
            · next hregistered =>
              refine h.takeNext hget hqueue (fun _ hpath => List.mem_singleton.mp hpath) ?_
              have hmem := List.contains_iff_mem.mp hregistered
              exact (h.tasks task (List.mem_of_getElem? hget)).registered _ hmem
            · exact hbegin
          · exact h.takeNext hget hqueue (fun _ hpath => List.mem_singleton.mp hpath) trivial

theorem Intact.countFailure (h : Intact s)
    (hget : s.tasks[i]? = some task) (marked : Bool) :
    Intact (registerSegmentRemuxFailure config s i task candidate marked) := by
  have hcounted : ∀ failures quarantined,
      Intact { s with failures := failures, quarantined := quarantined } :=
    fun _ _ => h.congr rfl rfl rfl rfl rfl rfl rfl
  unfold registerSegmentRemuxFailure
  dsimp only
  split
  · exact (hcounted _ s.quarantined).goTo hget rfl nofun trivial
  · exact ((hcounted _ _).setKnown _ _).goTo (by rw [setKnown_tasks]; exact hget) rfl nofun trivial

theorem Intact.registered (h : Intact s)
    (hget : s.tasks[i]? = some task) (hrow : (s.rows candidate.path).isSome) :
    Intact (registered s i task candidate) := by
  have hforgotten : Intact
      { s with failures := Function.update s.failures candidate 0 } :=
    h.congr rfl rfl rfl rfl rfl rfl rfl
  have hknown := hforgotten.setKnown task.owner candidate.path
  have hget' : (System.setKnown { s with failures := Function.update s.failures candidate 0 }
      task.owner candidate.path).tasks[i]? = some task := by
    rw [setKnown_tasks]
    exact hget
  refine hknown.setTask hget' rfl ?_ ?_ trivial
  · exact fun path hpath => List.mem_append_right _ hpath
  · intro path hpath
    rw [setKnown_rows]
    cases List.mem_cons.mp hpath with
    | inl heq =>
      rw [heq]
      exact hrow
    | inr hold => exact (h.tasks task (List.mem_of_getElem? hget)).registered path hold

/-! ## Events -/

@[simp] theorem changeMp4_tasks (path : SegmentPath) (remux : Nat) (change : Mp4File → Mp4File) :
    (changeMp4 s path remux change).tasks = s.tasks := by
  unfold changeMp4
  repeat' split
  all_goals rfl

@[simp] theorem changeMp4_ts (path : SegmentPath) (remux : Nat) (change : Mp4File → Mp4File) :
    (changeMp4 s path remux change).ts = s.ts := by
  unfold changeMp4
  repeat' split
  all_goals rfl

theorem Intact.changeMp4 (h : Intact s) {path : SegmentPath} {remux : Nat} {input : Media}
    {read : Bool} {change : Mp4File → Mp4File} (hget : s.tasks[i]? = some task)
    (hpc : task.pc = .remuxing path remux input read)
    (hchange : ∀ size mtime writers, ∀ file, file = ⟨.partialRemux remux input.capture size, mtime, writers⟩ →
      (∀ tsFile, s.ts path = some tsFile → (change file).content.Of tsFile.media) ∧
      (change file).content.capture = input.capture ∧
      ∀ r ∈ (change file).writers, r ∈ writers ∧
        (r = remux → ∃ size, (change file).content = .partialRemux remux input.capture size)) :
    Intact (changeMp4 s path remux change) := by
  have hmem := List.mem_of_getElem? hget
  have hholds := (h.tasks task hmem).pc
  rw [hpc] at hholds
  unfold SegmentPipeline.changeMp4
  split
  · exact h
  · next file hmp4 =>
    split
    · next hopen =>
      obtain ⟨hcapture, hmine⟩ := hholds.2 file hmp4
      obtain ⟨size, hcontent⟩ := hmine hopen
      obtain ⟨content, mtime, writers⟩ := file
      obtain rfl : content = _ := hcontent
      obtain ⟨hof, hsame, hwriters⟩ := hchange size mtime writers _ rfl
      refine h.setMp4 hmem (Task.mem_paths hpc List.mem_cons_self) ?_ ?_ ?_
      · rintro - capture' ⟨media, mtime', writers', hcomplete, -⟩
        rw [hmp4] at hcomplete
        cases hcomplete
      · rintro new tsFile ⟨⟩ hts
        exact hof tsFile hts
      · rintro other hother r input' read' new hcase ⟨⟩
        have hheld := (h.tasks other hother).pc
        rw [hcase] at hheld
        obtain ⟨hcapture', hmine'⟩ := hheld.2 _ hmp4
        refine ⟨hsame.trans hcapture', ?_⟩
        intro hr
        obtain ⟨hold, hpartial⟩ := hwriters r hr
        -- both opened the file last, so they are one
        obtain ⟨size', hboth⟩ := hmine' hold
        rw [Mp4Content.partialRemux.injEq] at hboth
        rw [← hboth.1, ← hboth.2.1]
        exact hpartial hboth.1.symm
    · exact h

theorem Intact.remuxOpened (h : Intact s) {path : SegmentPath}
    {file : TsFile} (hget : s.tasks[i]? = some task) (hpc : task.pc = .probingCodec path)
    (hts : s.ts path = some file) (hunused : inUse s path = false) (hclosed : isClosed s path = true) :
    Intact (SegmentPipeline.goTo (openMp4 s path file.media.capture) i task
      (.remuxing path s.remuxes file.media false)) := by
  have hmem := List.mem_of_getElem? hget
  have hpath : path ∈ task.paths := Task.mem_paths hpc List.mem_cons_self
  have hwriters : ((s.mp4 path).map (·.writers)).getD [] = [] := by
    unfold isClosed at hclosed
    cases hmp4 : s.mp4 path with
    | none => rfl
    | some old =>
      rw [hmp4] at hclosed
      exact List.isEmpty_iff.mp hclosed
  have hopened : Intact (s.setMp4 path
      (some ⟨.partialRemux s.remuxes file.media.capture 0, s.clock, [s.remuxes]⟩)) := by
    refine h.setMp4 hmem hpath ?_ ?_ ?_
    · intro hused
      rw [hunused] at hused
      cases hused
    · rintro mp4File tsFile ⟨⟩ hts'
      rw [hts, Option.some.injEq] at hts'
      exact congrArg (fun f => f.media.capture) hts'
    · rintro other hother remux input read mp4File hcase ⟨⟩
      have hother := (h.tasks other hother).pc
      rw [hcase] at hother
      have hinput : file.media.capture = input.capture :=
        congrArg Media.capture (hother.1 file hts)
      refine ⟨hinput, ?_⟩
      intro hr
      rw [List.mem_singleton.mp hr, hinput]
      exact ⟨0, rfl⟩
  have hcounted : Intact (openMp4 s path file.media.capture) := by
    unfold openMp4
    rw [hwriters]
    exact hopened.congr rfl rfl rfl rfl rfl rfl rfl
  refine hcounted.goTo hget hpc (fun _ hp => hp) ?_
  constructor
  · intro tsFile hts'
    rw [show s.ts path = some tsFile from hts', Option.some.injEq] at hts
    rw [hts]
  · intro mp4File hmp4
    change (s.setMp4 path _).mp4 path = some mp4File at hmp4
    rw [s.setMp4_self, Option.some.injEq] at hmp4
    rw [← hmp4]
    exact ⟨rfl, fun _ => ⟨0, rfl⟩⟩

theorem Intact.removeMp4 (h : Intact s) {path : SegmentPath}
    (hget : s.tasks[i]? = some task) (hpc : task.pc = .removing path)
    (hunused : inUse s path = false) : Intact (s.setMp4 path none) := by
  have hpath : path ∈ task.paths := Task.mem_paths hpc List.mem_cons_self
  refine h.setMp4 (List.mem_of_getElem? hget) hpath ?_ nofun nofun
  intro hused
  rw [hunused] at hused
  cases hused

theorem readInput_eq {path : SegmentPath} {input : Media}
    (h : ∀ file, s.ts path = some file → file.media = input) : readInput s path input = input := by
  unfold readInput
  split
  · rfl
  · next file hts =>
    split
    · exact h file hts
    · rfl

theorem complete_of_isComplete {path : SegmentPath} {file : Mp4File}
    (h : isComplete s path = true) (hmp4 : s.mp4 path = some file) :
    Complete s path file.content.capture := by
  obtain ⟨content, mtime, writers⟩ := file
  unfold isComplete at h
  rw [hmp4] at h
  cases content with
  | partialRemux remux capture size => cases h
  | mixed capture => cases h
  | complete media => exact ⟨media, mtime, writers, hmp4, rfl⟩

theorem Intact.writeRow (h : Intact s) {capture : Nat}
    {existing : Bool} (hmem : task ∈ s.tasks) (hpc : task.pc = .writing candidate capture existing) :
    Intact (if existing then s else s.setRow candidate.path capture) ∧
      ((if existing then s else s.setRow candidate.path capture).rows candidate.path).isSome ∧
      (if existing then s else s.setRow candidate.path capture).tasks = s.tasks := by
  have hholds := (h.tasks task hmem).pc
  rw [hpc] at hholds
  cases existing with
  | true => exact ⟨h, hholds.2 rfl, rfl⟩
  | false =>
    refine ⟨h.addRow hholds.1, ?_, rfl⟩
    show ((s.setRow candidate.path capture).rows candidate.path).isSome
    rw [s.setRow_self]
    rfl

theorem Intact.walked (h : Intact s) {candidates : List Candidate}
    (hget : s.tasks[i]? = some task) (hnone : ¬ s.active.isSome = true)
    (heligible : ∀ c ∈ candidates, eligible config s task.registered c = true) :
    Intact (s.setTask i { task with queue := candidates, pc := .next }) := by
  have hholds := h.tasks task (List.mem_of_getElem? hget)
  refine h.putTask hget rfl ?_ ?_ hholds.registered trivial
  · intro path hpath
    obtain ⟨candidate, hcandidate, rfl⟩ := List.mem_map.mp hpath
    have hold := heligible candidate hcandidate
    unfold eligible at hold
    split at hold
    · apply h.tsNamed
      obtain ⟨file, hfile, -⟩ := (Option.any_eq_true _ _).mp hold
      exact Option.isSome_iff_exists.mpr ⟨file, hfile⟩
    · apply h.mp4Named
      obtain ⟨file, hfile, -⟩ := (Option.any_eq_true _ _).mp (Bool.and_eq_true_iff.mp hold).2
      exact Option.isSome_iff_exists.mpr ⟨file, hfile⟩
  · intro pid proc path hproc hrunning
    have hactive := h.active_of_running hproc hrunning
    rw [hactive] at hnone
    exact absurd rfl hnone

theorem advance_intact (h : Intact s) {event : Event}
    (hget : s.tasks[i]? = some task) (hguard : keptEvent s task event = true)
    (hstep : advance config s i task event = some t) : Intact t := by
  have hmem := List.mem_of_getElem? hget
  have hholds := h.tasks task hmem
  have hpcHolds := hholds.pc
  cases event with
  | walked candidates =>
    simp only [advance] at hstep
    split at hstep
    · next hpc =>
      split at hstep
      · cases hstep; exact h.goTo hget rfl nofun trivial
      · next hnone =>
        split at hstep
        · next hall =>
          cases hstep
          exact h.walked hget hnone (fun c hc => List.all_eq_true.mp hall c hc)
        · cases hstep
    · cases hstep
  | taken =>
    simp only [advance] at hstep
    split at hstep
    · next hpc => cases hstep; exact h.takeUp hget hpc
    · cases hstep
  | remuxOpened =>
    simp only [advance] at hstep
    split at hstep
    · next path hpc =>
      obtain ⟨file, hts, rfl⟩ := Option.map_eq_some_iff.mp hstep
      have hfree : inUse s path = false ∧ isClosed s path = true := by
        simpa [keptEvent, hpc] using hguard
      exact h.remuxOpened hget hpc hts hfree.1 hfree.2
    · cases hstep
  | remuxWrote =>
    simp only [advance] at hstep
    split at hstep
    · next path remux input read hpc =>
      cases hstep
      rw [hpc] at hpcHolds
      refine h.changeMp4 hget hpc ?_
      rintro size mtime writers _ rfl
      rw [Mp4Content.write, if_pos rfl]
      refine ⟨?_, rfl, fun r hr => ⟨hr, fun _ => ⟨size + 1, rfl⟩⟩⟩
      exact fun tsFile hts => congrArg Media.capture (hpcHolds.1 tsFile hts).symm
    · cases hstep
  | remuxRead =>
    simp only [advance] at hstep
    split at hstep
    · next path remux input hpc =>
      cases hstep
      rw [hpc] at hpcHolds
      refine h.goTo hget hpc (fun _ hp => hp) ?_
      rw [readInput_eq hpcHolds.1]
      exact hpcHolds
    · cases hstep
  | remuxDone =>
    simp only [advance] at hstep
    split at hstep
    · next path remux input hpc =>
      cases hstep
      rw [hpc] at hpcHolds
      refine (h.changeMp4 hget hpc ?_).goTo (by rw [changeMp4_tasks]; exact hget) hpc
        (fun _ hp => hp) trivial
      rintro size mtime writers _ rfl
      rw [Mp4Content.finish, if_pos rfl]
      refine ⟨fun tsFile hts => (hpcHolds.1 tsFile hts).symm, rfl, ?_⟩
      intro r hr
      have hother := List.mem_filter.mp hr
      exact ⟨hother.1, fun heq => absurd heq (of_decide_eq_true hother.2)⟩
    · cases hstep
  | remuxFailed =>
    simp only [advance] at hstep
    split at hstep
    · next path hpc => cases hstep; exact h.goTo hget hpc (fun _ hp => hp) trivial
    · next path remux input read hpc =>
      cases hstep
      rw [hpc] at hpcHolds
      refine (h.changeMp4 hget hpc ?_).goTo (by rw [changeMp4_tasks]; exact hget) hpc
        (fun _ hp => hp) trivial
      rintro size mtime writers _ rfl
      refine ⟨fun tsFile hts => congrArg Media.capture (hpcHolds.1 tsFile hts).symm, rfl, ?_⟩
      intro r hr
      have hother := List.mem_filter.mp hr
      exact ⟨hother.1, fun heq => absurd heq (of_decide_eq_true hother.2)⟩
    · cases hstep
  | removed ok =>
    simp only [advance] at hstep
    split at hstep
    · next path hpc =>
      cases hstep
      have hgoOn : ∀ {s' : System}, Intact s' → s'.tasks[i]? = some task →
          Intact (SegmentPipeline.goTo s' i task (.failing ⟨path, .ts⟩)) :=
        fun h' hget' => h'.goTo hget' hpc (fun _ hp => hp) trivial
      cases ok with
      | false => exact hgoOn h hget
      | true =>
        have hunused : inUse s path = false := by
          simpa [keptEvent, hpc] using hguard
        exact hgoOn (h.removeMp4 hget hpc hunused) hget
    · cases hstep
  | synced =>
    simp only [advance] at hstep
    split at hstep
    · next path hpc => cases hstep; exact h.goTo hget hpc (fun _ hp => hp) trivial
    · cases hstep
  | probed ok =>
    simp only [advance] at hstep
    split at hstep
    · next path hpc =>
      cases hstep
      cases ok with
      | true => exact h.goTo hget hpc (fun _ hp => hp) trivial
      | false => exact h.goTo hget hpc (fun _ hp => hp) trivial
    · next candidate hpc =>
      split at hstep
      · next hok =>
        have hcomplete : isComplete s candidate.path = true := by
          simpa [keptEvent, hpc, hok] using hguard
        split at hstep
        · cases hstep
        · next file hmp4 =>
          split at hstep
          · cases hstep
          · cases hstep
            refine h.goTo hget hpc (fun _ hp => hp) ?_
            exact complete_of_isComplete hcomplete hmp4
      · cases hstep
        exact h.goTo hget hpc (fun _ hp => hp) trivial
    · cases hstep
  | lookedUp ok =>
    simp only [advance] at hstep
    split at hstep
    · next candidate capture hpc =>
      cases hstep
      rw [hpc] at hpcHolds
      cases ok with
      | true => exact h.goTo hget hpc (fun _ hp => hp) ⟨hpcHolds, fun heq => heq⟩
      | false => exact h.goTo hget hpc (fun _ hp => hp) trivial
    · cases hstep
  | written ok =>
    simp only [advance] at hstep
    split at hstep
    · next candidate capture existing hpc =>
      split at hstep
      · obtain ⟨hrowed, hrow, htasks⟩ := h.writeRow hmem hpc
        split at hstep
        · cases hstep
          exact hrowed.goTo (by rw [htasks]; exact hget) hpc (fun _ hp => hp) hrow
        · cases hstep
          exact hrowed.registered (by rw [htasks]; exact hget) hrow
      · cases hstep
        exact h.goTo hget hpc (fun _ hp => hp) trivial
    · cases hstep
  | unlinked ok =>
    simp only [advance] at hstep
    split at hstep
    · next path fresh hpc =>
      rw [hpc] at hpcHolds
      have hremoved : Intact (if ok then s.setTs path none else s) ∧
          (if ok then s.setTs path none else s).tasks = s.tasks ∧
          (if ok then s.setTs path none else s).rows = s.rows := by
        cases ok with
        | true => exact ⟨h.removeTs hpcHolds, rfl, rfl⟩
        | false => exact ⟨h, rfl, rfl⟩
      obtain ⟨hintact, htasks, hrows⟩ := hremoved
      split at hstep
      · cases hstep
        exact hintact.registered (by rw [htasks]; exact hget) (by rw [hrows]; exact hpcHolds)
      · cases hstep
        exact hintact.goTo (by rw [htasks]; exact hget) rfl nofun trivial
    · cases hstep
  | failureCounted marked =>
    simp only [advance] at hstep
    split at hstep
    · next candidate hpc => cases hstep; exact h.countFailure hget marked
    · cases hstep

/-! ## Steps -/

theorem Intact.beginScan (h : Intact s) {pid : Nat} {final : Bool}
    (hmay : mayScan s pid final = true) :
    Intact { s with
      tasks := s.tasks ++ [{ owner := .scan pid final, queue := scanCandidates s final }] } := by
  obtain ⟨proc, hget, hbegin⟩ := (Option.any_eq_true _ _).mp hmay
  have hwhen := (Bool.and_eq_true_iff.mp hbegin).2
  have hpaths : ∀ path ∈ (scanCandidates s final).map (·.path),
      path ∈ (if final then s.listing else s.listing.dropLast) := by
    intro path hpath
    simpa [scanCandidates] using hpath
  refine h.addTask ⟨?_, nofun, trivial, ?_⟩ ?_
  · intro path hpath
    have hmem := hpaths path hpath
    apply h.tsNamed
    rw [← h.mem_listing]
    split at hmem
    · exact hmem
    · exact List.dropLast_subset _ hmem
  · intro q hq
    cases hq
    refine ⟨proc, hget, ?_⟩
    rw [if_pos rfl] at hwhen
    rw [of_decide_eq_true hwhen]
    exact nofun
  · intro q r path hr hrunning hfile hpath
    have hmem := hpaths path hpath
    split at hmem
    · next hfinal =>
      -- the finalizing recording is the one in `active`, and it runs no more
      rw [if_pos hfinal] at hwhen
      have hscanning : proc.finalize = .scanning := of_decide_eq_true hwhen
      have hactive := h.active pid proc hget (by rw [hscanning]; exact nofun)
      have hq : pid = q :=
        Option.some.inj (hactive.symm.trans (h.active_of_running hr hrunning))
      subst hq
      rw [hget, Option.some.injEq] at hr
      subst hr
      have hnot := h.running pid proc hget hrunning
      rw [hscanning] at hnot
      cases hnot
    · exact h.not_mem_dropLast (h.writing q r path hr hrunning hfile) hmem

theorem Intact.beginRecovery (h : Intact s) :
    Intact { s with
      tasks := s.tasks ++ [{
        owner := .recovery
        registered := s.names.filter fun path => (s.rows path).isSome
        pc := .walking }] } := by
  refine h.addTask ⟨nofun, ?_, trivial, nofun⟩ (fun _ _ _ _ _ _ => nofun)
  exact fun path hpath => (List.mem_filter.mp hpath).2

theorem Intact.crash (h : Intact s) :
    Intact { s with
      mp4 := fun path => (s.mp4 path).map fun file => { file with writers := [] }
      procs := [], active := none, tasks := []
      failures := fun _ => 0, known := fun _ _ => false } := by
  refine { h with
    mp4Named := ?_, rows := ?_, remuxed := ?_, running := nofun, active := nofun, writing := nofun
    tasks := nofun }
  · intro path hsome
    rw [Option.isSome_map] at hsome
    exact h.mp4Named path hsome
  · intro path capture hrow
    obtain ⟨media, mtime, writers, hmp4, hcapture⟩ := h.rows path capture hrow
    exact ⟨media, mtime, [], congrArg (Option.map _) hmp4, hcapture⟩
  · intro path file tsFile hmp4 hts
    obtain ⟨old, hold, rfl⟩ := Option.map_eq_some_iff.mp hmp4
    have hof := h.remuxed path old tsFile hold hts
    exact hof

theorem step_intact (h : Intact s) {a : Label} (hguard : Kept s a)
    (hstep : step config s a = some t) : Intact t := by
  cases a with
  | setClock clock =>
    cases hstep
    exact h.congr rfl rfl rfl rfl rfl rfl rfl
  | spawn =>
    cases hstep
    exact h.spawn (Option.isNone_iff_eq_none.mp hguard) _
  | opens pid =>
    obtain ⟨proc, hget, hopens⟩ := Option.bind_eq_some_iff.mp hstep
    have hfresh : freshName s ⟨proc.hour, s.clock⟩ = true := by
      simpa [Kept, kept, hget] using hguard
    split at hopens
    · next hrunning => cases hopens; exact h.opens hget hrunning hfresh
    · cases hopens
  | writes pid =>
    obtain ⟨proc, hget, hwrites⟩ := Option.bind_eq_some_iff.mp hstep
    split at hwrites
    · next hrunning => cases hwrites; exact h.writes hget hrunning
    · cases hwrites
  | closes pid =>
    obtain ⟨proc, hget, rfl⟩ := Option.map_eq_some_iff.mp hstep
    exact h.setProc hget nofun id id
  | finalize pid =>
    obtain ⟨proc, hget, hfinalize⟩ := Option.bind_eq_some_iff.mp hstep
    have hclosed : proc.running = false := by
      simpa [Kept, kept, hget] using hguard
    split at hfinalize
    · next hnotStarted =>
      cases hfinalize
      refine h.setProc hget ?_ ?_ (fun _ => nofun)
      · intro hrunning
        rw [show proc.running = true from hrunning] at hclosed
        cases hclosed
      · rw [hnotStarted]
        exact fun _ => nofun
    · cases hfinalize
  | scan pid final =>
    simp only [step] at hstep
    split at hstep
    · next hmay => cases hstep; exact h.beginScan hmay
    · cases hstep
  | recover => cases hstep; exact h.beginRecovery
  | task i event =>
    obtain ⟨task, hget, hadvance⟩ := Option.bind_eq_some_iff.mp hstep
    have hevent : keptEvent s task event = true := by
      simpa [Kept, kept, hget] using hguard
    exact advance_intact h hget hevent hadvance
  | crash => cases hstep; exact h.crash

/-! ## What removes a file -/

@[simp] theorem takeUp_ts (i : Nat) (task : Task) : (takeUp s i task).ts = s.ts := by
  unfold takeUp System.setTask
  repeat' split
  all_goals simp

@[simp] theorem registerSegmentRemuxFailure_ts (i : Nat) (task : Task) (candidate : Candidate)
    (marked : Bool) : (registerSegmentRemuxFailure config s i task candidate marked).ts = s.ts := by
  unfold registerSegmentRemuxFailure System.setTask
  dsimp only
  split <;> simp

@[simp] theorem registered_ts (i : Nat) (task : Task) (candidate : Candidate) :
    (registered s i task candidate).ts = s.ts := by
  unfold registered System.setTask
  simp

theorem writeSegment_some (proc : RecordingProcess) {path : SegmentPath} {file : TsFile}
    (hts : s.ts path = some file) : (writeSegment s proc).ts path ≠ none := by
  have hold : s.ts path ≠ none := by
    rw [hts]
    exact nofun
  unfold writeSegment
  split
  · exact hold
  · next q hq =>
    split
    · exact hold
    · split
      · by_cases heq : path = q
        · rw [heq, s.setTs_self]
          exact nofun
        · rw [s.setTs_ne heq]
          exact hold
      · exact hold

theorem advance_ts {event : Event}
    (hstep : advance config s i task event = some t) :
    t.ts = s.ts ∨ ∃ path fresh, task.pc = .unlinking path fresh ∧
      t.ts = (s.setTs path none).ts := by
  cases event with
  | unlinked ok =>
    simp only [advance] at hstep
    split at hstep
    · next path fresh hpc =>
      have hts : t.ts = (if ok then s.setTs path none else s).ts := by
        split at hstep
        · cases hstep
          rw [registered_ts]
        · cases hstep
          rfl
      cases ok with
      | true => exact Or.inr ⟨path, fresh, hpc, hts⟩
      | false => exact Or.inl hts
    · cases hstep
  | remuxOpened =>
    simp only [advance] at hstep
    split at hstep
    · obtain ⟨file, -, rfl⟩ := Option.map_eq_some_iff.mp hstep
      exact Or.inl rfl
    · cases hstep
  | removed ok =>
    simp only [advance] at hstep
    split at hstep
    · cases hstep
      cases ok <;> exact Or.inl rfl
    · cases hstep
  | written ok =>
    simp only [advance] at hstep
    split at hstep
    · next candidate capture existing hpc =>
      have hsame : (if existing then s else s.setRow candidate.path capture).ts = s.ts := by
        cases existing <;> rfl
      split at hstep
      · split at hstep
        · cases hstep
          exact Or.inl hsame
        · cases hstep
          rw [registered_ts]
          exact Or.inl hsame
      · cases hstep
        exact Or.inl rfl
    · cases hstep
  | taken =>
    simp only [advance] at hstep
    split at hstep
    · cases hstep
      exact Or.inl (takeUp_ts i task)
    · cases hstep
  | failureCounted marked =>
    simp only [advance] at hstep
    split at hstep
    · cases hstep
      exact Or.inl (registerSegmentRemuxFailure_ts i task _ marked)
    · cases hstep
  | _ =>
    simp only [advance] at hstep
    repeat' split at hstep
    all_goals cases hstep
    all_goals first | exact Or.inl rfl | exact Or.inl (changeMp4_ts _ _ _)

theorem step_removes {a : Label} {path : SegmentPath} {file : TsFile}
    (hstep : step config s a = some t) (hts : s.ts path = some file) (hgone : t.ts path = none) :
    ∃ i event, a = .task i event ∧ ∃ task ∈ s.tasks, ∃ fresh, task.pc = .unlinking path fresh := by
  have hkept : t.ts path ≠ s.ts path := by
    rw [hgone, hts]
    exact nofun
  cases a with
  | opens pid =>
    obtain ⟨proc, -, hopens⟩ := Option.bind_eq_some_iff.mp hstep
    split at hopens
    · cases hopens
      by_cases heq : path = ⟨proc.hour, s.clock⟩
      · have hnew : (openSegment s pid proc).ts path = some ⟨⟨s.captures, 0⟩, s.clock⟩ := by
          rw [heq]
          exact s.setTs_self _ _
        rw [hnew] at hgone
        cases hgone
      · exact absurd (s.setTs_ne heq _) hkept
    · cases hopens
  | writes pid =>
    obtain ⟨proc, -, hwrites⟩ := Option.bind_eq_some_iff.mp hstep
    split at hwrites
    · cases hwrites
      exact absurd hgone (writeSegment_some proc hts)
    · cases hwrites
  | task i event =>
    obtain ⟨task, hget, hadvance⟩ := Option.bind_eq_some_iff.mp hstep
    cases advance_ts hadvance with
    | inl hsame => exact absurd (congrFun hsame path) hkept
    | inr hremoved =>
      obtain ⟨q, fresh, hpc, hnew⟩ := hremoved
      refine ⟨i, event, rfl, task, List.mem_of_getElem? hget, fresh, ?_⟩
      by_cases heq : path = q
      · rw [heq]
        exact hpc
      · rw [hnew, s.setTs_ne heq] at hkept
        exact absurd rfl hkept
  | closes pid =>
    obtain ⟨proc, -, rfl⟩ := Option.map_eq_some_iff.mp hstep
    exact absurd rfl hkept
  | finalize pid =>
    obtain ⟨proc, -, hfinalize⟩ := Option.bind_eq_some_iff.mp hstep
    split at hfinalize
    · cases hfinalize
      exact absurd rfl hkept
    · cases hfinalize
  | scan pid final =>
    simp only [step] at hstep
    split at hstep
    · cases hstep
      exact absurd rfl hkept
    · cases hstep
  | setClock clock => cases hstep; exact absurd rfl hkept
  | spawn => cases hstep; exact absurd rfl hkept
  | recover => cases hstep; exact absurd rfl hkept
  | crash => cases hstep; exact absurd rfl hkept

/-! ## The theorem -/

theorem Intact.neverLost (h : Intact s) : NeverLost config s := by
  constructor
  · intro a t path file hstep hts hgone
    obtain ⟨-, -, -, task, hmem, fresh, hpc⟩ := step_removes hstep hts hgone
    have hrow := (h.tasks task hmem).pc
    rw [hpc] at hrow
    exact h.safe hrow hts
  · intro path capture file hrow hmp4
    obtain ⟨media, mtime, writers, hcomplete, hcapture⟩ := h.rows path capture hrow
    rw [hmp4, Option.some.injEq] at hcomplete
    rw [hcomplete]
    exact hcapture

/-- In every run whose steps meet the condition no `.ts` is removed before it is remuxed whole
and registered, or while it is written; and a row keeps the capture it was written for. -/
theorem never_lost (h : Reach (pipeline config) Kept s) : NeverLost config s := by
  have hintact : Intact s := by
    refine h.invariant ?_ (fun s a t hs hguard hstep => step_intact hs hguard hstep)
    rintro s ⟨clock, rfl⟩
    exact newSystem_intact clock
  exact hintact.neverLost

/-! ## Runs -/

def defaults : Config := ⟨300, 3⟩

def recording : List Label := [.spawn, .opens 0, .writes 0]

/-- A task goes on with a `.ts` that is remuxed and registered, up to its removal. -/
def remuxed (i : Nat) : List Label :=
  [.task i .remuxOpened, .task i .remuxWrote, .task i .remuxRead, .task i .remuxDone,
    .task i .synced, .task i (.probed true), .task i (.lookedUp true), .task i (.written true)]

/-- The next segment is in the making while a scan takes up the first one. -/
def rotated : List Label :=
  recording ++
    ([.setClock 400, .opens 0, .writes 0, .scan 0 false, .task 0 .taken] : List Label) ++ remuxed 0

def removes (s : System) (i : Nat) (path : SegmentPath) : Bool :=
  (s.ts path).isSome &&
    (step defaults s (.task i (.unlinked true))).any fun t => (t.ts path).isNone

theorem of_removes {path : SegmentPath} (h : removes s i path = true) :
    ∃ t file, step defaults s (.task i (.unlinked true)) = some t ∧ s.ts path = some file ∧
      t.ts path = none := by
  obtain ⟨hts, hstep⟩ := Bool.and_eq_true_iff.mp h
  obtain ⟨file, hfile⟩ := Option.isSome_iff_exists.mp hts
  obtain ⟨t, ht, hgone⟩ := (Option.any_eq_true _ _).mp hstep
  exact ⟨t, file, ht, hfile, Option.isNone_iff_eq_none.mp hgone⟩

theorem never_lost_rotated : ∃ s file, Reach (pipeline defaults) Kept s ∧
    removes s 0 ⟨0, 100⟩ = true ∧ s.ts ⟨0, 100⟩ = some file ∧ Safe s ⟨0, 100⟩ file := by
  have hrun : ((pipeline defaults).run kept (newSystem 100) rotated).map
      (fun s => removes s 0 ⟨0, 100⟩) = some true := by
    rfl
  obtain ⟨s, hreach, hremoves⟩ := reach_of_run (G := Kept) hrun ⟨100, rfl⟩ (fun _ _ h => h)
  obtain ⟨t, file, hstep, hts, hgone⟩ := of_removes hremoves
  exact ⟨s, file, hreach, hremoves, hts, (never_lost hreach).1 _ t _ file hstep hts hgone⟩

/-! Without any one of the conditions a segment is lost. -/

/-- The steps meet the condition, but those of one kind need not. -/
def keptBut (excused : Label → Bool) (s : System) (a : Label) : Bool :=
  excused a || kept s a

def KeptBut (excused : Label → Bool) (s : System) (a : Label) : Prop :=
  keptBut excused s a = true

def isOpens : Label → Bool
  | .opens _ => true
  | _ => false

def isSpawn : Label → Bool
  | .spawn => true
  | _ => false

def isFinalize : Label → Bool
  | .finalize _ => true
  | _ => false

def isProbed : Label → Bool
  | .task _ (.probed _) => true
  | _ => false

def isRemuxOpened : Label → Bool
  | .task _ .remuxOpened => true
  | _ => false

def isRemoved : Label → Bool
  | .task _ (.removed _) => true
  | _ => false

/-- The clock steps back after a crash: the file in the making is not the last by name, and a
scan takes it up. -/
def clockBack : List Label :=
  recording ++ ([.crash, .setClock 50, .spawn, .opens 0, .writes 0, .scan 0 false,
    .task 0 .taken] : List Label) ++ remuxed 0

/-- Two calls of `start` have overlapped: the scan takes up what the first process writes. -/
def startedTwice : List Label :=
  recording ++ ([.setClock 110, .spawn, .opens 1, .writes 1, .scan 1 false,
    .task 0 .taken] : List Label) ++ remuxed 0

/-- A stop gave up waiting, and the final scan takes up what is still written. -/
def stopGaveUp : List Label :=
  recording ++ ([.finalize 0, .scan 0 true, .task 0 .taken] : List Label) ++ remuxed 0

/-- A crash leaves a partial `.mp4`, and ffprobe accepts it. -/
def partialAccepted : List Label :=
  recording ++ ([.closes 0, .finalize 0, .scan 0 true, .task 0 .taken, .task 0 .remuxOpened,
    .task 0 .remuxWrote, .crash, .setClock 1000, .recover,
    .task 0 (.walked [⟨⟨0, 100⟩, .ts⟩]), .task 0 .taken, .task 0 .synced,
    .task 0 (.probed true), .task 0 (.lookedUp true), .task 0 (.written true)] : List Label)

/-- The recovery and the scan of a new recording have both found no `.mp4`. -/
def takenTwice : List Label :=
  recording ++ ([.crash, .setClock 1000, .recover, .task 0 (.walked [⟨⟨0, 100⟩, .ts⟩]),
    .task 0 .taken, .spawn, .opens 0, .writes 0, .scan 0 false, .task 1 .taken] : List Label)

/-- Both have opened it, and the one that opened it first writes on after the other one's
`.mp4` is registered. -/
def openedTwice : List Label :=
  takenTwice ++ [.task 1 .remuxOpened] ++ remuxed 0 ++ ([.task 1 .remuxWrote] : List Label)

def remuxedAndRemoved : List Label :=
  takenTwice ++ remuxed 0 ++ ([.task 1 .remuxFailed, .task 1 (.removed true)] : List Label)

theorem lost_of_run {excused : Label → Bool} {labels : List Label} {path : SegmentPath}
    (h : ((pipeline defaults).run (keptBut excused) (newSystem 100) labels).map
      (fun s => (removes s 0 path, (s.ts path).all fun file => !decide (Safe s path file))) =
      some (true, true)) :
    ∃ s, Reach (pipeline defaults) (KeptBut excused) s ∧ ¬ NeverLost defaults s := by
  obtain ⟨s, hs, heq⟩ := Option.map_eq_some_iff.mp h
  rw [Prod.mk.injEq] at heq
  obtain ⟨hremoves, hunsafe⟩ := heq
  refine ⟨s, ⟨_, ⟨100, rfl⟩, path_of_run (fun _ _ h => h) _ hs⟩, ?_⟩
  intro hnever
  obtain ⟨t, file, hstep, hts, hgone⟩ := of_removes hremoves
  have hsafe := hnever.1 _ t path file hstep hts hgone
  rw [hts, Option.all_some, decide_eq_true hsafe] at hunsafe
  cases hunsafe

/-- Segments are lost, whichever of the conditions is dropped. -/
theorem segment_lost :
    (¬ ∀ s, Reach (pipeline defaults) Always s → NeverLost defaults s) ∧
    (∃ s, Reach (pipeline defaults) (KeptBut isOpens) s ∧ ¬ NeverLost defaults s) ∧
    (∃ s, Reach (pipeline defaults) (KeptBut isSpawn) s ∧ ¬ NeverLost defaults s) ∧
    (∃ s, Reach (pipeline defaults) (KeptBut isFinalize) s ∧ ¬ NeverLost defaults s) ∧
    (∃ s, Reach (pipeline defaults) (KeptBut isProbed) s ∧ ¬ NeverLost defaults s) ∧
    (∃ s, Reach (pipeline defaults) (KeptBut isRemuxOpened) s ∧ ¬ NeverLost defaults s) ∧
    ∃ s, Reach (pipeline defaults) (KeptBut isRemoved) s ∧ ¬ NeverLost defaults s := by
  have hopens := @lost_of_run isOpens clockBack ⟨0, 50⟩ (by rfl)
  refine ⟨?_, hopens, ?_, ?_, ?_, ?_, ?_⟩
  · intro hall
    obtain ⟨s, hreach, hlost⟩ := hopens
    exact hlost (hall s (hreach.mono fun _ _ _ => trivial))
  · exact @lost_of_run isSpawn startedTwice ⟨0, 100⟩ (by rfl)
  · exact @lost_of_run isFinalize stopGaveUp ⟨0, 100⟩ (by rfl)
  · exact @lost_of_run isProbed partialAccepted ⟨0, 100⟩ (by rfl)
  · exact @lost_of_run isRemuxOpened openedTwice ⟨0, 100⟩ (by rfl)
  · exact @lost_of_run isRemoved remuxedAndRemoved ⟨0, 100⟩ (by rfl)

end Drac.Recordings.SegmentPipeline
