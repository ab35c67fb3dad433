import Drac.Recordings.SegmentPipeline

/-
  The invariant of the segment pipeline.

  A path is opened once: the name of a capture is fresh, for a `.ts` gone has left a row
  and an `.mp4`. So the last file by name is the one in the making, no task has it, and
  what a task reads does not change any more. A row stands for a complete remux, and an
  `.mp4` beside a `.ts` was made of that.

  Each way in which a step changes the state keeps the invariant by a lemma of its own:
  the tasks (`setTask`, `addTask`), the `.mp4` of one path (`setMp4`), the rows (`addRow`),
  the removal of a `.ts` (`removeTs`), the processes (`setProc`, `spawn`), and the capture
  (`openSegment`, `writeSegment`).
-/

namespace Drac.Recordings.SegmentPipeline

open Runs

/-! ## The property -/

/-- No process writes the file any more, and the registered `.mp4` of its name is the complete
remux of it. -/
def Safe (s : System) (path : SegmentPath) (file : TsFile) : Prop :=
  (∀ proc ∈ s.procs, proc.running = true → proc.file ≠ some path) ∧
    (s.rows path).isSome ∧ (s.mp4 path).map (·.content) = some (.complete file.media)

instance decidableSafe (s : System) (path : SegmentPath) (file : TsFile) :
    Decidable (Safe s path file) :=
  inferInstanceAs (Decidable (_ ∧ _ ∧ _))

/-- Whatever the next step is, it removes no `.ts` that is not safe to remove; and behind a row
there is the capture that was there when it was registered. -/
def NeverLost (config : Config) (s : System) : Prop :=
  (∀ a t path file, step config s a = some t → s.ts path = some file → t.ts path = none →
    Safe s path file) ∧
  ∀ path capture file, s.rows path = some capture → s.mp4 path = some file →
    file.content.capture = capture

/-! ## The condition -/

/-- The probe has accepted the `.mp4`, and the task has not written its row yet. -/
def Task.accepted (task : Task) (path : SegmentPath) : Bool :=
  match task.pc with
  | .lookingUp candidate _ | .writing candidate _ _ => candidate.path = path
  | _ => false

/-- The `.mp4` is registered, or about to be. -/
def inUse (s : System) (path : SegmentPath) : Bool :=
  (s.rows path).isSome || s.tasks.any (·.accepted path)

/-- The capture would open a name later than those of all `.ts` there, and of no `.mp4`. -/
def freshName (s : System) (path : SegmentPath) : Bool :=
  s.names.all (fun q => (s.ts q).isNone || q.Le path && q ≠ path) && (s.mp4 path).isNone

/-- No ffmpeg has the `.mp4` open. -/
def isClosed (s : System) (path : SegmentPath) : Bool := (s.mp4 path).all (·.writers.isEmpty)

def isComplete (s : System) (path : SegmentPath) : Bool :=
  (s.mp4 path).any fun file =>
    match file.content with
    | .complete _ => true
    | .partialRemux _ _ _ | .mixed _ => false

def keptEvent (s : System) (task : Task) : Event → Bool
  | .remuxOpened =>
    match task.pc with
    | .probingCodec path => !inUse s path && isClosed s path
    | _ => true
  | .removed ok =>
    match task.pc with
    | .removing path => !ok || !inUse s path
    | _ => true
  | .probed ok =>
    match task.pc with
    | .probing candidate => !ok || isComplete s candidate.path
    | _ => true
  | _ => true

/-- The condition on a step. -/
def kept (s : System) : Label → Bool
  | .spawn => s.active.isNone
  | .opens pid => (s.procs[pid]?).all fun proc => freshName s ⟨proc.hour, s.clock⟩
  | .finalize pid => (s.procs[pid]?).all fun proc => !proc.running
  | .task i event => (s.tasks[i]?).all fun task => keptEvent s task event
  | _ => true

def Kept (s : System) (a : Label) : Prop := kept s a = true

/-! ## The invariant -/

/-- The `.mp4` is whole, and of that capture. -/
def Complete (s : System) (path : SegmentPath) (capture : Nat) : Prop :=
  ∃ media mtime writers, s.mp4 path = some ⟨.complete media, mtime, writers⟩ ∧
    media.capture = capture

/-- What an `.mp4` holds is of this `.ts`, and all of it where it is complete. -/
def Mp4Content.Of : Mp4Content → Media → Prop
  | .partialRemux _ capture _, media | .mixed capture, media => capture = media.capture
  | .complete whole, media => whole = media

def Pc.paths : Pc → List SegmentPath
  | .probingCodec path | .remuxing path _ _ _ | .removing path | .syncing path
  | .checking path | .unlinking path _ => [path]
  | .probing candidate | .lookingUp candidate _ | .writing candidate _ _
  | .failing candidate => [candidate.path]
  | .walking | .next | .finished => []

/-- The paths a task may yet touch. -/
def Task.paths (task : Task) : List SegmentPath :=
  task.pc.paths ++ task.queue.map (·.path)

variable {task : Task} {path : SegmentPath}

theorem Task.mem_paths {pc : Pc} (hpc : task.pc = pc)
    (hpath : path ∈ pc.paths) : path ∈ task.paths :=
  List.mem_append_left _ (hpc ▸ hpath)

/-- The file is in the making: the last by name, without an `.mp4`, and no task has it. -/
structure Written (s : System) (path : SegmentPath) : Prop where
  last : ∀ q, (s.ts q).isSome → q.Le path
  noMp4 : s.mp4 path = none
  free : ∀ task ∈ s.tasks, path ∉ task.paths

/-- The `.mp4` is of what the ffmpeg reads; and an ffmpeg that has it open opened it last. -/
def Remuxes (remux : Nat) (input : Media) (file : Mp4File) : Prop :=
  file.content.capture = input.capture ∧
    (remux ∈ file.writers → ∃ size, file.content = .partialRemux remux input.capture size)

/-- What a task has found out and still holds. -/
def PcHolds (s : System) : Pc → Prop
  | .remuxing path remux input _ =>
    (∀ file, s.ts path = some file → file.media = input) ∧
      ∀ file, s.mp4 path = some file → Remuxes remux input file
  | .lookingUp candidate capture => Complete s candidate.path capture
  | .writing candidate capture existing =>
    Complete s candidate.path capture ∧ (existing = true → (s.rows candidate.path).isSome)
  | .unlinking path _ => (s.rows path).isSome
  | _ => True

/-- What a task holds is so. -/
structure TaskHolds (s : System) (task : Task) : Prop where
  named : ∀ path ∈ task.paths, path ∈ s.names
  registered : ∀ path ∈ task.registered, (s.rows path).isSome
  pc : PcHolds s task.pc
  owner : ∀ pid, task.owner = .scan pid true →
    ∃ proc, s.procs[pid]? = some proc ∧ proc.finalize ≠ .notStarted

/-- No content is lost, nor spoiled. -/
structure Intact (s : System) : Prop where
  nodup : s.names.Nodup
  tsNamed : ∀ path, (s.ts path).isSome → path ∈ s.names
  mp4Named : ∀ path, (s.mp4 path).isSome → path ∈ s.names
  there : ∀ path ∈ s.names, (s.ts path).isSome ∨ (s.rows path).isSome
  rows : ∀ path capture, s.rows path = some capture → Complete s path capture
  remuxed : ∀ path file tsFile, s.mp4 path = some file → s.ts path = some tsFile →
    file.content.Of tsFile.media
  running : ∀ (pid : Nat) proc, s.procs[pid]? = some proc → proc.running = true →
    proc.finalize = .notStarted
  active : ∀ (pid : Nat) proc, s.procs[pid]? = some proc → proc.finalize ≠ .done → s.active = some pid
  writing : ∀ (pid : Nat) proc path, s.procs[pid]? = some proc → proc.running = true →
    proc.file = some path → Written s path
  tasks : ∀ task ∈ s.tasks, TaskHolds s task

variable {s : System}

variable {pid : Nat} {proc : RecordingProcess}

theorem Intact.active_of_running (h : Intact s)
    (hget : s.procs[pid]? = some proc) (hrunning : proc.running = true) :
    s.active = some pid := by
  refine h.active pid proc hget ?_
  rw [h.running pid proc hget hrunning]
  exact nofun

theorem Intact.safe (h : Intact s) {file : TsFile}
    (hrow : (s.rows path).isSome) (hts : s.ts path = some file) : Safe s path file := by
  obtain ⟨capture, hcapture⟩ := Option.isSome_iff_exists.mp hrow
  obtain ⟨media, mtime, writers, hmp4, -⟩ := h.rows path capture hcapture
  refine ⟨?_, hrow, ?_⟩
  · intro proc hproc hrunning hfile
    obtain ⟨pid, hpid⟩ := List.mem_iff_getElem?.mp hproc
    have hnone := (h.writing pid proc path hpid hrunning hfile).noMp4
    rw [hmp4] at hnone
    cases hnone
  · have hmedia : media = file.media := h.remuxed path _ file hmp4 hts
    rw [hmp4, ← hmedia]
    rfl

theorem newSystem_intact (clock : Nat) : Intact (newSystem clock) where
  nodup := List.nodup_nil
  tsNamed := nofun
  mp4Named := nofun
  there := nofun
  rows := nofun
  remuxed := nofun
  running := nofun
  active := nofun
  writing := nofun
  tasks := nofun

variable {t : System}

theorem Intact.congr (h : Intact s) (hnames : t.names = s.names)
    (hts : t.ts = s.ts) (hmp4 : t.mp4 = s.mp4) (hrows : t.rows = s.rows)
    (hprocs : t.procs = s.procs) (hactive : t.active = s.active) (htasks : t.tasks = s.tasks) :
    Intact t := by
  cases s
  cases t
  subst hnames hts hmp4 hrows hprocs hactive htasks
  refine { h with writing := ?_, tasks := ?_ }
  · intro pid proc path hget hrunning hfile
    obtain ⟨hlast, hnoMp4, hfree⟩ := h.writing pid proc path hget hrunning hfile
    exact ⟨hlast, hnoMp4, hfree⟩
  · intro task htask
    obtain ⟨hnamed, hregistered, hpc, howner⟩ := h.tasks task htask
    exact ⟨hnamed, hregistered, hpc, howner⟩

/-! ## Tasks -/

theorem Intact.putTask (h : Intact s) {i : Nat} {task task' : Task} (hget : s.tasks[i]? = some task)
    (howner : task'.owner = task.owner) (hnamed : ∀ path ∈ task'.paths, path ∈ s.names)
    (hfree : ∀ (pid : Nat) proc path, s.procs[pid]? = some proc → proc.running = true →
      proc.file = some path → path ∉ task'.paths)
    (hregistered : ∀ path ∈ task'.registered, (s.rows path).isSome)
    (hpc : PcHolds s task'.pc) : Intact (s.setTask i task') := by
  refine { h with writing := ?_, tasks := ?_ }
  · intro pid proc path hproc hrunning hfile
    have hw := h.writing pid proc path hproc hrunning hfile
    refine ⟨hw.last, hw.noMp4, ?_⟩
    intro other hother
    cases List.mem_or_eq_of_mem_set hother with
    | inl hin => exact hw.free other hin
    | inr heq =>
      rw [heq]
      exact hfree pid proc path hproc hrunning hfile
  · intro other hother
    cases List.mem_or_eq_of_mem_set hother with
    | inl hin =>
      obtain ⟨hnamed', hregistered', hpc', howner'⟩ := h.tasks other hin
      exact ⟨hnamed', hregistered', hpc', howner'⟩
    | inr heq =>
      subst heq
      refine ⟨hnamed, hregistered, hpc, ?_⟩
      rw [howner]
      exact (h.tasks task (List.mem_of_getElem? hget)).owner

theorem Intact.setTask (h : Intact s) {i : Nat} {task task' : Task} (hget : s.tasks[i]? = some task)
    (howner : task'.owner = task.owner) (hpaths : ∀ path ∈ task'.paths, path ∈ task.paths)
    (hregistered : ∀ path ∈ task'.registered, (s.rows path).isSome)
    (hpc : PcHolds s task'.pc) : Intact (s.setTask i task') := by
  have hmem : task ∈ s.tasks := List.mem_of_getElem? hget
  refine h.putTask hget howner ?_ ?_ hregistered hpc
  · exact fun path hpath => (h.tasks task hmem).named path (hpaths path hpath)
  · intro pid proc path hproc hrunning hfile hpath
    exact (h.writing pid proc path hproc hrunning hfile).free task hmem (hpaths path hpath)

theorem Intact.addTask (h : Intact s) (hholds : TaskHolds s task)
    (hfree : ∀ (pid : Nat) proc path, s.procs[pid]? = some proc → proc.running = true →
      proc.file = some path → path ∉ task.paths) :
    Intact { s with tasks := s.tasks ++ [task] } := by
  refine { h with writing := ?_, tasks := ?_ }
  · intro pid proc path hproc hrunning hfile
    have hw := h.writing pid proc path hproc hrunning hfile
    refine ⟨hw.last, hw.noMp4, ?_⟩
    intro other hother
    cases List.mem_append.mp hother with
    | inl hin => exact hw.free other hin
    | inr hnew =>
      rw [List.mem_singleton.mp hnew]
      exact hfree pid proc path hproc hrunning hfile
  · intro other hother
    cases List.mem_append.mp hother with
    | inl hin =>
      obtain ⟨hnamed, hregistered, hpc, howner⟩ := h.tasks other hin
      exact ⟨hnamed, hregistered, hpc, howner⟩
    | inr hnew =>
      rw [List.mem_singleton.mp hnew]
      exact ⟨hholds.1, hholds.2, hholds.3, hholds.4⟩

theorem Intact.not_written (h : Intact s)
    (hmem : task ∈ s.tasks) (hpath : path ∈ task.paths)
    (hget : s.procs[pid]? = some proc) (hrunning : proc.running = true) :
    proc.file ≠ some path :=
  fun hfile => (h.writing pid proc path hget hrunning hfile).free task hmem hpath

/-! ## Files -/

theorem PcHolds.mono {s t : System} {pc : Pc} (h : PcHolds s pc)
    (hts : ∀ path ∈ pc.paths, ∀ file, t.ts path = some file → s.ts path = some file)
    (hmp4 : t.mp4 = s.mp4) (hrows : ∀ path, (s.rows path).isSome → (t.rows path).isSome) :
    PcHolds t pc := by
  cases pc with
  | remuxing path remux input read =>
    obtain ⟨hinput, hcapture⟩ := h
    refine ⟨fun file hfile => hinput file (hts path List.mem_cons_self file hfile), ?_⟩
    rw [hmp4]
    exact hcapture
  | lookingUp candidate capture =>
    unfold PcHolds Complete
    rw [hmp4]
    exact h
  | writing candidate capture existing =>
    refine ⟨?_, fun hexisting => hrows _ (h.2 hexisting)⟩
    unfold Complete
    rw [hmp4]
    exact h.1
  | unlinking path registered => exact hrows path h
  | _ => trivial

theorem TaskHolds.mono {s t : System} (h : TaskHolds s task)
    (hnames : ∀ path ∈ s.names, path ∈ t.names)
    (hrows : ∀ path, (s.rows path).isSome → (t.rows path).isSome)
    (hprocs : ∀ (pid : Nat) proc, s.procs[pid]? = some proc → proc.finalize ≠ .notStarted →
      ∃ proc', t.procs[pid]? = some proc' ∧ proc'.finalize ≠ .notStarted)
    (hpc : PcHolds t task.pc) : TaskHolds t task where
  named path hpath := hnames path (h.named path hpath)
  registered path hpath := hrows path (h.registered path hpath)
  pc := hpc
  owner pid howner := by
    obtain ⟨proc, hget, hfinal⟩ := h.owner pid howner
    exact hprocs pid proc hget hfinal

/-- The `.mp4` at a path of a task changes. Where it is in use it stays complete, and of the
same capture. -/
theorem Intact.setMp4 (h : Intact s) {new : Option Mp4File}
    (hmem : task ∈ s.tasks) (hpath : path ∈ task.paths)
    (hused : inUse s path = true → ∀ capture, Complete s path capture →
      ∃ media mtime writers, new = some ⟨.complete media, mtime, writers⟩ ∧
        media.capture = capture)
    (hof : ∀ file tsFile, new = some file → s.ts path = some tsFile →
      file.content.Of tsFile.media)
    (hinput : ∀ other ∈ s.tasks, ∀ remux input read file,
      other.pc = .remuxing path remux input read → new = some file →
      Remuxes remux input file) :
    Intact (s.setMp4 path new) := by
  have hcomplete : ∀ q capture, (q = path → inUse s path = true) → Complete s q capture →
      Complete (s.setMp4 path new) q capture := by
    intro q capture huse hq
    by_cases heq : q = path
    · subst heq
      obtain ⟨media, mtime, writers, hnew, hcapture⟩ := hused (huse rfl) capture hq
      exact ⟨media, mtime, writers, by rw [s.setMp4_self]; exact hnew, hcapture⟩
    · obtain ⟨media, mtime, writers, hmp4, hcapture⟩ := hq
      exact ⟨media, mtime, writers, by rw [s.setMp4_ne heq]; exact hmp4, hcapture⟩
  -- a task that has accepted the path counts as a use of it, as a row does
  have huseAccepted : ∀ other ∈ s.tasks, ∀ q, other.accepted q = true → q = path →
      inUse s path = true := by
    intro other hother q haccepted heq
    subst heq
    exact Bool.or_eq_true_iff.mpr (Or.inr (List.any_eq_true.mpr ⟨other, hother, haccepted⟩))
  refine { h with mp4Named := ?_, rows := ?_, remuxed := ?_, writing := ?_, tasks := ?_ }
  · intro q hq
    by_cases heq : q = path
    · rw [heq]
      exact (h.tasks task hmem).named path hpath
    · rw [s.setMp4_ne heq] at hq
      exact h.mp4Named q hq
  · intro q capture hrow
    apply hcomplete q capture ?_ (h.rows q capture hrow)
    intro heq
    subst heq
    exact Bool.or_eq_true_iff.mpr (Or.inl (Option.isSome_iff_exists.mpr ⟨capture, hrow⟩))
  · intro q file tsFile hmp4 hts
    by_cases heq : q = path
    · subst heq
      rw [s.setMp4_self] at hmp4
      exact hof file tsFile hmp4 hts
    · rw [s.setMp4_ne heq] at hmp4
      exact h.remuxed q file tsFile hmp4 hts
  · intro pid proc q hget hrunning hfile
    have hw := h.writing pid proc q hget hrunning hfile
    -- the recorder's file is of no task, so this is another path
    have hne : q ≠ path := by
      intro heq
      rw [heq] at hfile
      exact h.not_written hmem hpath hget hrunning hfile
    exact ⟨hw.last, by rw [s.setMp4_ne hne]; exact hw.noMp4, hw.free⟩
  · intro other hother
    have hold := h.tasks other hother
    refine hold.mono (fun _ hq => hq) (fun _ hq => hq) (fun _ proc hget hne => ⟨proc, hget, hne⟩) ?_
    have hpc := hold.pc
    cases hcase : other.pc with
    -- only the tasks that rely on an `.mp4` are touched by the change
    | remuxing q remux input read =>
      rw [hcase] at hpc
      obtain ⟨hread, hcapture⟩ := hpc
      refine ⟨hread, ?_⟩
      intro file hmp4
      by_cases heq : q = path
      · subst heq
        rw [s.setMp4_self] at hmp4
        exact hinput other hother remux input read file hcase hmp4
      · rw [s.setMp4_ne heq] at hmp4
        exact hcapture file hmp4
    | lookingUp candidate capture =>
      rw [hcase] at hpc
      refine hcomplete candidate.path capture ?_ hpc
      exact huseAccepted other hother _ (by simp [Task.accepted, hcase])
    | writing candidate capture existing =>
      rw [hcase] at hpc
      refine ⟨hcomplete candidate.path capture ?_ hpc.1, hpc.2⟩
      exact huseAccepted other hother _ (by simp [Task.accepted, hcase])
    | unlinking q registered =>
      rw [hcase] at hpc
      exact hpc
    | _ => trivial

theorem Intact.addRow (h : Intact s) {capture : Nat}
    (hcomplete : Complete s path capture) :
    Intact (s.setRow path capture) := by
  have hmono : ∀ q, (s.rows q).isSome →
      ((s.setRow path capture).rows q).isSome := by
    intro q hq
    by_cases heq : q = path
    · rw [heq, s.setRow_self]
      rfl
    · rw [s.setRow_ne heq]
      exact hq
  refine { h with there := ?_, rows := ?_, writing := ?_, tasks := ?_ }
  · intro q hq
    exact (h.there q hq).imp id (hmono q)
  · intro q capture' hrow
    by_cases heq : q = path
    · subst heq
      rw [s.setRow_self, Option.some.injEq] at hrow
      rw [← hrow]
      exact hcomplete
    · rw [s.setRow_ne heq] at hrow
      exact h.rows q capture' hrow
  · intro pid proc q hget hrunning hfile
    obtain ⟨hlast, hnoMp4, hfree⟩ := h.writing pid proc q hget hrunning hfile
    exact ⟨hlast, hnoMp4, hfree⟩
  · intro task htask
    have hold := h.tasks task htask
    exact hold.mono (fun _ hq => hq) hmono (fun _ proc hget hne => ⟨proc, hget, hne⟩)
      (hold.pc.mono (fun _ _ _ hfile => hfile) rfl hmono)

theorem Intact.removeTs (h : Intact s) (hrow : (s.rows path).isSome) :
    Intact (s.setTs path none) := by
  have hmono : ∀ q file, (s.setTs path none).ts q = some file → s.ts q = some file := by
    intro q file hq
    by_cases heq : q = path
    · rw [heq, s.setTs_self] at hq
      cases hq
    · rw [s.setTs_ne heq] at hq
      exact hq
  have hsome : ∀ q, ((s.setTs path none).ts q).isSome → (s.ts q).isSome := by
    intro q hq
    obtain ⟨file, hfile⟩ := Option.isSome_iff_exists.mp hq
    rw [hmono q file hfile]
    rfl
  refine { h with
    tsNamed := fun q hq => h.tsNamed q (hsome q hq), there := ?_, remuxed := ?_, writing := ?_,
    tasks := ?_ }
  · intro q hq
    by_cases heq : q = path
    · rw [heq]
      exact Or.inr hrow
    · rw [s.setTs_ne heq]
      exact h.there q hq
  · intro q file tsFile hmp4 hts
    exact h.remuxed q file tsFile hmp4 (hmono q tsFile hts)
  · intro pid proc q hget hrunning hfile
    obtain ⟨hlast, hnoMp4, hfree⟩ := h.writing pid proc q hget hrunning hfile
    exact ⟨fun q' hq' => hlast q' (hsome q' hq'), hnoMp4, hfree⟩
  · intro task htask
    have hold := h.tasks task htask
    exact hold.mono (fun _ hq => hq) (fun _ hq => hq) (fun _ proc hget hne => ⟨proc, hget, hne⟩)
      (hold.pc.mono (fun q _ => hmono q) rfl (fun _ hq => hq))

/-! ## Processes -/

theorem Intact.setProc (h : Intact s) {proc proc' : RecordingProcess}
    (hget : s.procs[pid]? = some proc)
    (hrunning : proc'.running = true →
      proc'.finalize = .notStarted ∧ ∀ path, proc'.file = some path → Written s path)
    (hdone : proc'.finalize ≠ .done → proc.finalize ≠ .done)
    (hstarted : proc.finalize ≠ .notStarted → proc'.finalize ≠ .notStarted) :
    Intact (s.setProc pid proc') := by
  -- a process of the new list is the one set, or was there before
  have hcases : ∀ (q : Nat) r, (s.procs.set pid proc')[q]? = some r →
      q = pid ∧ r = proc' ∨ s.procs[q]? = some r := by
    intro q r hr
    exact (getElem?_set_some hr).imp id And.right
  refine { h with running := ?_, active := ?_, writing := ?_, tasks := ?_ }
  · intro q r hr hrun
    cases hcases q r hr with
    | inl hboth => exact hboth.2 ▸ (hrunning (hboth.2 ▸ hrun)).1
    | inr hold => exact h.running q r hold hrun
  · intro q r hr hne
    cases hcases q r hr with
    | inl hboth =>
      rw [hboth.1]
      exact h.active pid proc hget (hdone (hboth.2 ▸ hne))
    | inr hold => exact h.active q r hold hne
  · intro q r path hr hrun hfile
    have hw : Written s path := by
      cases hcases q r hr with
      | inl hboth =>
        rw [hboth.2] at hrun hfile
        exact (hrunning hrun).2 path hfile
      | inr hold => exact h.writing q r path hold hrun hfile
    exact ⟨hw.last, hw.noMp4, hw.free⟩
  · intro task htask
    have hold := h.tasks task htask
    refine hold.mono (fun _ hq => hq) (fun _ hq => hq) ?_
      (hold.pc.mono (fun _ _ _ hfile => hfile) rfl (fun _ hq => hq))
    intro q r hr hne
    by_cases heq : q = pid
    · subst heq
      rw [hget, Option.some.injEq] at hr
      subst hr
      have hlt : q < s.procs.length := (List.getElem?_eq_some_iff.mp hget).1
      exact ⟨proc', by simp [System.setProc, hlt], hstarted hne⟩
    · exact ⟨r, by simp [System.setProc, List.getElem?_set_ne (Ne.symm heq), hr], hne⟩

theorem Intact.leave (h : Intact s)
    (hdone : ∀ proc, s.procs[pid]? = some proc → proc.finalize = .done) :
    Intact { s with active := if s.active = some pid then none else s.active } := by
  refine { h with active := ?_, writing := ?_, tasks := ?_ }
  · intro q proc hget hne
    have hactive := h.active q proc hget hne
    have hother : ¬ s.active = some pid := by
      rw [hactive, Option.some.injEq]
      intro heq
      exact hne (hdone proc (heq ▸ hget))
    show (if s.active = some pid then none else s.active) = some q
    rw [if_neg hother]
    exact hactive
  · intro q proc path hget hrunning hfile
    obtain ⟨hlast, hnoMp4, hfree⟩ := h.writing q proc path hget hrunning hfile
    exact ⟨hlast, hnoMp4, hfree⟩
  · intro task htask
    obtain ⟨hnamed, hregistered, hpc, howner⟩ := h.tasks task htask
    exact ⟨hnamed, hregistered, hpc, howner⟩

theorem Intact.spawn (h : Intact s) (hnone : s.active = none) (hour : Nat) :
    Intact { s with procs := s.procs ++ [{ hour := hour }], active := some s.procs.length } := by
  have hcases : ∀ (q : Nat) r, (s.procs ++ [{ hour := hour }])[q]? = some r →
      s.procs[q]? = some r ∨ q = s.procs.length ∧ r = { hour := hour } := by
    intro q r hr
    rw [List.getElem?_append] at hr
    split at hr
    · exact Or.inl hr
    · next hle =>
      have hq : q - s.procs.length = 0 := by
        by_contra hne
        rw [List.getElem?_eq_none (by simp; omega)] at hr
        cases hr
      rw [hq] at hr
      cases hr
      exact Or.inr ⟨by omega, rfl⟩
  -- with nothing in `active`, every earlier recording is finalized
  have hdone : ∀ (q : Nat) r, s.procs[q]? = some r → r.finalize = .done := by
    intro q r hr
    by_contra hne
    have hactive := h.active q r hr hne
    rw [hnone] at hactive
    cases hactive
  refine { h with running := ?_, active := ?_, writing := ?_, tasks := ?_ }
  · intro q r hr hrunning
    cases hcases q r hr with
    | inl hold => exact h.running q r hold hrunning
    | inr hnew => rw [hnew.2]
  · intro q r hr hne
    cases hcases q r hr with
    | inl hold => exact absurd (hdone q r hold) hne
    | inr hnew => rw [hnew.1]
  · intro q r path hr hrunning hfile
    cases hcases q r hr with
    | inl hold =>
      obtain ⟨hlast, hnoMp4, hfree⟩ := h.writing q r path hold hrunning hfile
      exact ⟨hlast, hnoMp4, hfree⟩
    | inr hnew =>
      rw [hnew.2] at hfile
      cases hfile
  · intro task htask
    have hold := h.tasks task htask
    refine hold.mono (fun _ hq => hq) (fun _ hq => hq) ?_
      (hold.pc.mono (fun _ _ _ hfile => hfile) rfl (fun _ hq => hq))
    intro q r hr hne
    have hlt : q < s.procs.length := (List.getElem?_eq_some_iff.mp hr).1
    exact ⟨r, by rw [List.getElem?_append_left hlt]; exact hr, hne⟩

/-! ## Capture -/

theorem Intact.not_named (h : Intact s) (hfresh : freshName s path = true) :
    path ∉ s.names := by
  intro hmem
  simp only [freshName, Bool.and_eq_true, List.all_eq_true, Bool.or_eq_true] at hfresh
  obtain ⟨hlater, hnoMp4⟩ := hfresh
  cases h.there path hmem with
  | inl hts =>
    cases hlater path hmem with
    | inl hnone =>
      rw [Option.isNone_iff_eq_none.mp hnone] at hts
      cases hts
    | inr hother => exact of_decide_eq_true hother.2 rfl
  | inr hrow =>
    obtain ⟨capture, hcapture⟩ := Option.isSome_iff_exists.mp hrow
    obtain ⟨media, mtime, writers, hmp4, -⟩ := h.rows path capture hcapture
    rw [hmp4] at hnoMp4
    cases hnoMp4

theorem Intact.le_of_fresh (h : Intact s) {path q : SegmentPath}
    (hfresh : freshName s path = true) (hq : (s.ts q).isSome) : q.Le path := by
  simp only [freshName, Bool.and_eq_true, List.all_eq_true, Bool.or_eq_true] at hfresh
  cases hfresh.1 q (h.tsNamed q hq) with
  | inl hnone =>
    rw [Option.isNone_iff_eq_none.mp hnone] at hq
    cases hq
  | inr hother => exact of_decide_eq_true hother.1

theorem Intact.create (h : Intact s) (hnew : path ∉ s.names)
    (hnone : ∀ (pid : Nat) proc, s.procs[pid]? = some proc → proc.running = true →
      proc.file = none) :
    Intact (s.create path) := by
  have hnames : ∀ q, q ∈ (s.create path).names ↔ q = path ∨ q ∈ s.names := by
    intro q
    exact List.mem_insert_iff
  have hts : ∀ q ∈ s.names, (s.create path).ts q = s.ts q := by
    intro q hq
    have hne : q ≠ path := fun heq => hnew (heq ▸ hq)
    exact s.setTs_ne hne _
  have hself : ((s.create path).ts path).isSome := by
    show ((s.setTs path (some _)).ts path).isSome
    rw [s.setTs_self]
    rfl
  have hnoMp4 : s.mp4 path = none := by
    by_contra hsome
    exact hnew (h.mp4Named path (Option.isSome_iff_ne_none.mpr hsome))
  constructor
  · exact h.nodup.insert
  · intro q hq
    rw [hnames]
    by_cases heq : q = path
    · exact Or.inl heq
    · have hold : (s.ts q).isSome := by
        rw [← s.setTs_ne heq]
        exact hq
      exact Or.inr (h.tsNamed q hold)
  · exact fun q hq => (hnames q).mpr (Or.inr (h.mp4Named q hq))
  · intro q hq
    cases (hnames q).mp hq with
    | inl heq =>
      rw [heq]
      exact Or.inl hself
    | inr hold =>
      rw [hts q hold]
      exact h.there q hold
  · exact h.rows
  · intro q file tsFile hmp4 htsFile
    have hq : q ∈ s.names := h.mp4Named q (Option.isSome_iff_exists.mpr ⟨file, hmp4⟩)
    rw [hts q hq] at htsFile
    exact h.remuxed q file tsFile hmp4 htsFile
  · exact h.running
  · exact h.active
  -- no process holds a file, so none is in the making
  · intro pid proc q hget hrunning hfile
    rw [hnone pid proc hget hrunning] at hfile
    cases hfile
  · intro task htask
    have hold := h.tasks task htask
    refine hold.mono (fun q hq => (hnames q).mpr (Or.inr hq)) (fun _ hq => hq)
      (fun _ proc hget hne => ⟨proc, hget, hne⟩) ?_
    refine hold.pc.mono ?_ rfl (fun _ hq => hq)
    -- a task names none but known paths, and those keep their `.ts`
    intro q hq file hfile
    rw [hts q (hold.named q (List.mem_append_left _ hq))] at hfile
    exact hfile

theorem Intact.opens (h : Intact s)
    (hget : s.procs[pid]? = some proc) (hrunning : proc.running = true)
    (hfresh : freshName s ⟨proc.hour, s.clock⟩ = true) : Intact (openSegment s pid proc) := by
  generalize hpath : (⟨proc.hour, s.clock⟩ : SegmentPath) = path at hfresh
  have hnew := h.not_named hfresh
  have hlt : pid < s.procs.length := (List.getElem?_eq_some_iff.mp hget).1
  have hstarted := h.running pid proc hget hrunning
  -- the process lets go of its file, the next one is created, the process takes that
  have hclosed : Intact (s.setProc pid { proc with file := none }) :=
    h.setProc hget (fun _ => ⟨hstarted, nofun⟩) id id
  have hcreated : Intact ((s.setProc pid { proc with file := none }).create path) := by
    refine hclosed.create hnew ?_
    intro q r hr hrun
    have hq : q = pid := by
      have hactive := hclosed.active_of_running hr hrun
      have hpid := h.active_of_running hget hrunning
      exact Option.some.inj (hactive.symm.trans hpid)
    rw [hq, System.setProc, List.getElem?_set_self hlt, Option.some.injEq] at hr
    rw [← hr]
  -- the new file is the last by name, has no `.mp4`, and no task knows it
  have hwritten : Written ((s.setProc pid { proc with file := none }).create path) path := by
    constructor
    · intro q hq
      by_cases heq : q = path
      · rw [heq]
        exact Or.inr ⟨rfl, Nat.le_refl _⟩
      · have hold : (s.ts q).isSome := by
          rw [← s.setTs_ne heq]
          exact hq
        exact h.le_of_fresh hfresh hold
    · by_contra hsome
      exact hnew (h.mp4Named path (Option.isSome_iff_ne_none.mpr hsome))
    · exact fun task htask hpath => hnew ((h.tasks task htask).named path hpath)
  have hget' : ((s.setProc pid { proc with file := none }).create path).procs[pid]? =
      some { proc with file := none } := List.getElem?_set_self hlt
  have htaken : Intact (((s.setProc pid { proc with file := none }).create path).setProc pid
      { proc with file := some path, capture := s.captures }) :=
    hcreated.setProc hget' (fun _ => ⟨hstarted, fun q hq => by cases hq; exact hwritten⟩) id id
  have hsame : openSegment s pid proc =
      ((s.setProc pid { proc with file := none }).create path).setProc pid
        { proc with file := some path, capture := s.captures } := by
    simp [openSegment, System.create, System.setProc, System.setTs, hpath]
  rw [hsame]
  exact htaken

theorem Intact.writes (h : Intact s)
    (hget : s.procs[pid]? = some proc) (hrunning : proc.running = true) :
    Intact (writeSegment s proc) := by
  unfold writeSegment
  split
  · exact h
  · next path hfile =>
    split
    · exact h
    · next file hts =>
      split
      · have hw := h.writing pid proc path hget hrunning hfile
        have hsome : ∀ q new, ((s.setTs path (some new)).ts q).isSome = (s.ts q).isSome := by
          intro q new
          by_cases heq : q = path
          · rw [heq, s.setTs_self, hts]
            rfl
          · rw [s.setTs_ne heq]
        refine { h with
          tsNamed := fun q hq => h.tsNamed q (by rw [hsome] at hq; exact hq)
          there := fun q hq => by rw [hsome]; exact h.there q hq
          remuxed := ?_, writing := ?_, tasks := ?_ }
        · intro q mp4File tsFile hmp4 htsFile
          -- what is in the making has no `.mp4` yet
          have hne : q ≠ path := by
            intro heq
            have hnone := hw.noMp4
            rw [← heq, show s.mp4 q = some mp4File from hmp4] at hnone
            cases hnone
          rw [s.setTs_ne hne] at htsFile
          exact h.remuxed q mp4File tsFile hmp4 htsFile
        · intro other r q hr hrun hq
          obtain ⟨hlast, hnoMp4, hfree⟩ := h.writing other r q hr hrun hq
          exact ⟨fun q' hq' => hlast q' (by rw [hsome] at hq'; exact hq'), hnoMp4, hfree⟩
        · intro task htask
          have hold := h.tasks task htask
          refine hold.mono (fun _ hq => hq) (fun _ hq => hq)
            (fun _ r hr hne => ⟨r, hr, hne⟩) ?_
          refine hold.pc.mono ?_ rfl (fun _ hq => hq)
          intro q hq tsFile htsFile
          have hne : q ≠ path := by
            intro heq
            exact hw.free task htask (heq ▸ List.mem_append_left _ hq)
          rw [s.setTs_ne hne] at htsFile
          exact htsFile
      · exact h

/-! ## Candidates of a scan -/

theorem not_mem_dropLast_insertionSort {α : Type*} {r : α → α → Prop} [DecidableRel r]
    [Std.Total r] [IsTrans α r] (hantisymm : ∀ {a b}, r a b → r b a → a = b) {l : List α} {w : α}
    (hnodup : l.Nodup) (hlast : ∀ q ∈ l, r q w) : w ∉ (l.insertionSort r).dropLast := by
  intro hmem
  have hsorted : (l.insertionSort r).Nodup := (List.perm_insertionSort r l).nodup_iff.mpr hnodup
  have hne : l.insertionSort r ≠ [] := by
    intro hnil
    rw [hnil] at hmem
    cases hmem
  have hsplit := List.dropLast_append_getLast hne
  have hpairwise := List.pairwise_insertionSort r l
  rw [← hsplit] at hpairwise hsorted
  -- were it among the others, it would be both below and above the last
  have hle : r w ((l.insertionSort r).getLast hne) :=
    (List.pairwise_append.mp hpairwise).2.2 w hmem _ (List.mem_singleton.mpr rfl)
  have hge : r ((l.insertionSort r).getLast hne) w :=
    hlast _ ((List.mem_insertionSort r).mp (List.getLast_mem hne))
  have heq := hantisymm hle hge
  have hdisjoint := (List.nodup_append.mp hsorted).2.2 w hmem _ (List.mem_singleton.mpr rfl)
  exact hdisjoint heq

theorem Intact.mem_listing (h : Intact s) :
    path ∈ s.listing ↔ (s.ts path).isSome := by
  unfold System.listing
  rw [List.mem_insertionSort, List.mem_filter]
  exact ⟨fun hboth => hboth.2, fun hts => ⟨h.tsNamed path hts, hts⟩⟩

theorem Intact.not_mem_dropLast (h : Intact s) (hw : Written s path) :
    path ∉ s.listing.dropLast := by
  apply not_mem_dropLast_insertionSort SegmentPath.Le.antisymm (h.nodup.filter _)
  intro q hq
  exact hw.last q (List.mem_filter.mp hq).2

end Drac.Recordings.SegmentPipeline
