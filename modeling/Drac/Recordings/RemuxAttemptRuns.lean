import Drac.Recordings.RemuxAttempts
import Drac.Recordings.SegmentPipelineRuns

/-
  The attempts at a segment are bounded, under the condition.

  `Counted` says of each file that its attempts are at most its failures counted, and one
  more while a task has it; that no two tasks have files of one path; and what the task at
  a file relies on. `Counted.turn` is the step of a task, whatever it does to the one file
  it has. In every run whose steps are `Met` the attempts are bounded, a file that only
  fails stays where it is, and one that was processed is registered and has no marker
  (`attempts_bounded`).
-/

namespace Drac.Recordings.SegmentPipeline.RemuxAttempts

open Runs

/-! ## What a task does -/

variable {config : Config} {s s' t : System} {l l' : Life} {i : Nat} {task task' : Task}

/-- A step leaves what counts alone. -/
structure Still (s s' : System) : Prop where
  tasks : s'.tasks = s.tasks
  failures : s'.failures = s.failures
  quarantined : s'.quarantined = s.quarantined
  rows : s'.rows = s.rows
  mp4 : s'.mp4 = s.mp4

theorem Still.refl (s : System) : Still s s := ⟨rfl, rfl, rfl, rfl, rfl⟩

theorem still_setKnown (s : System) (owner : Owner) (path : SegmentPath) :
    Still s (s.setKnown owner path) := by
  cases owner <;> exact ⟨rfl, rfl, rfl, rfl, rfl⟩

theorem still_finishScan (s : System) (owner : Owner) : Still s (finishScan s owner) := by
  unfold finishScan
  split
  · split
    · exact .refl s
    · exact ⟨rfl, rfl, rfl, rfl, rfl⟩
  · exact .refl s

/-- An ffmpeg that changes its `.mp4` leaves the rest alone, and an `.mp4` behind. -/
theorem changeMp4_frame (s : System) (path : SegmentPath) (remux : Nat)
    (change : Mp4File → Mp4File) :
    (changeMp4 s path remux change).failures = s.failures ∧
      (changeMp4 s path remux change).quarantined = s.quarantined ∧
      (changeMp4 s path remux change).rows = s.rows ∧
      ∀ q, (s.mp4 q).isSome → ((changeMp4 s path remux change).mp4 q).isSome := by
  unfold changeMp4
  split
  · exact ⟨rfl, rfl, rfl, fun _ hq => hq⟩
  · split
    · refine ⟨rfl, rfl, rfl, ?_⟩
      intro q hq
      by_cases heq : q = path
      · rw [heq, System.setMp4_self]
        rfl
      · rw [System.setMp4_ne _ heq]
        exact hq
    · exact ⟨rfl, rfl, rfl, fun _ hq => hq⟩

/-- The candidates of a scan are `.ts` files, and it never walks. -/
def ScansTs (task : Task) : Prop :=
  ∀ pid final, task.owner = .scan pid final →
    task.pc ≠ .walking ∧ ∀ c ∈ task.queue, c.kind = .ts

theorem beginRemux_subject (s : System) (path : SegmentPath) :
    subject (beginRemux s path) = some ⟨path, .ts⟩ := by
  unfold beginRemux
  split
  · rfl
  · split <;> rfl

theorem beginRemux_making {path p : SegmentPath} (h : making (beginRemux s path) = some p) :
    p = path ∧ (s.mp4 path).all (·.content.isEmpty) := by
  unfold beginRemux at h
  split at h
  · next hnone => exact ⟨(Option.some.inj h).symm, by rw [hnone]; rfl⟩
  · next file hfile =>
    split at h
    · next hempty => exact ⟨(Option.some.inj h).symm, by rw [hfile]; exact hempty⟩
    · cases h

theorem beginRemux_found (s : System) (path : SegmentPath) :
    found (beginRemux s path) = none := by
  unfold beginRemux
  split
  · rfl
  · split <;> rfl

/-- A file is taken up: what the task is at then. -/
structure Taken (s : System) (task : Task) (c : Candidate) (pc : Pc) : Prop where
  unmarked : s.quarantined c = false
  subject : subject pc = some c
  making : ∀ p, making pc = some p → c = ⟨p, .ts⟩ ∧ (s.mp4 p).all (·.content.isEmpty)
  registered : ∀ p, found pc = some p → p ∈ task.registered

variable {path : SegmentPath}

theorem Taken.remux (h : s.quarantined ⟨path, .ts⟩ = false) :
    Taken s task ⟨path, .ts⟩ (beginRemux s path) where
  unmarked := h
  subject := beginRemux_subject s path
  making p hp := by
    obtain ⟨rfl, hempty⟩ := beginRemux_making hp
    exact ⟨rfl, hempty⟩
  registered p hp := by
    rw [beginRemux_found] at hp
    cases hp

variable {c : Candidate}

theorem takeUp_due (hscan : ScansTs task) (hdue : due s task = some c) :
    ∃ rest pc, task.queue = c :: rest ∧ Taken s task c pc ∧
      takeUp s i task = s.setTask i { task with queue := rest, pc := pc } := by
  obtain ⟨owner, registered, queue, pc⟩ := task
  unfold due at hdue
  split at hdue
  · next candidate rest hnext hqueue =>
    obtain rfl : queue = candidate :: rest := hqueue
    split at hdue
    · cases hdue
    · next hskip =>
      obtain rfl := Option.some.inj hdue
      obtain ⟨path, kind⟩ := candidate
      unfold skips at hskip
      rw [Bool.or_eq_true, not_or, Bool.not_eq_true] at hskip
      obtain ⟨hunmarked, howner⟩ := hskip
      cases owner with
      | scan pid final =>
        obtain rfl : kind = .ts := (hscan pid final rfl).2 _ List.mem_cons_self
        refine ⟨rest, _, rfl, .remux hunmarked, ?_⟩
        dsimp only at howner
        cases hts : s.ts path with
        | none => simp [hts] at howner
        | some file =>
          have hboth : s.known pid path = false ∧ file.media.length ≠ 0 := by
            simpa [hts] using howner
          simp [takeUp, hunmarked, hts, hboth.1, hboth.2]
      | recovery =>
        have hidle : s.active.isSome = false := by simpa using howner
        cases kind with
        | mp4 =>
          exact ⟨rest, .checking path, rfl, ⟨hunmarked, rfl, nofun, nofun⟩,
            by simp [takeUp, hunmarked, hidle]⟩
        | ts =>
          by_cases hmem : path ∈ registered
          · refine ⟨rest, .unlinking path false, rfl, ⟨hunmarked, rfl, nofun, ?_⟩, ?_⟩
            · rintro p ⟨⟩
              exact hmem
            · simp [takeUp, hunmarked, hidle, hmem]
          · exact ⟨rest, _, rfl, .remux hunmarked, by simp [takeUp, hunmarked, hidle, hmem]⟩
  · cases hdue

/-- A turn that takes nothing up. -/
structure IdleTurn (s : System) (i : Nat) (task : Task) (t : System) where
  sys : System
  task' : Task
  eq : t = sys.setTask i task'
  still : Still s sys
  owner : task'.owner = task.owner
  registered : task'.registered = task.registered
  queue : ∀ c ∈ task'.queue, c ∈ task.queue
  pc : task'.pc = .next ∨ task'.pc = .finished

theorem takeUp_idle (hnext : task.pc = .next) (hdue : due s task = none) :
    Nonempty (IdleTurn s i task (takeUp s i task)) := by
  obtain ⟨owner, registered, queue, pc⟩ := task
  obtain rfl : pc = .next := hnext
  have hover : Nonempty (IdleTurn s i ⟨owner, registered, queue, .next⟩
      ((finishScan s owner).setTask i ⟨owner, registered, queue, .finished⟩)) :=
    ⟨⟨_, _, rfl, still_finishScan s _, rfl, rfl, fun _ hc => hc, .inr rfl⟩⟩
  cases queue with
  | nil => exact hover
  | cons candidate rest =>
    have hskipped : ∀ {s'}, Still s s' →
        Nonempty (IdleTurn s i ⟨owner, registered, candidate :: rest, .next⟩
          (s'.setTask i ⟨owner, registered, rest, .next⟩)) :=
      fun h => ⟨⟨_, _, rfl, h, rfl, rfl, fun _ hc => List.mem_cons_of_mem _ hc, .inl rfl⟩⟩
    have hskip : skips s owner candidate = true := by
      by_contra hne
      simp [due, hne] at hdue
    unfold takeUp
    dsimp only
    cases owner with
    | scan pid final =>
      dsimp only
      split
      · exact hskipped (.refl s)
      · split
        · exact hskipped (still_setKnown s _ _)
        · split
          · exact hover
          · split
            · exact hskipped (.refl s)
            · simp_all [skips]
    | recovery =>
      dsimp only
      split
      · exact hskipped (.refl s)
      · split
        · exact hskipped (.refl s)
        · simp_all [skips]

/-! ## The invariant -/

/-- A task is at work on the file. -/
def Works (s : System) (c : Candidate) : Prop :=
  ∃ (j : Nat) (task : Task), s.tasks[j]? = some task ∧ subject task.pc = some c

/-- The attempts at one file, against its counter and its marker. -/
structure Fair (config : Config) (l : Life) (c : Candidate) : Prop where
  below : l.sys.failures c < config.maxAttempts
  idle : l.processed c = false → l.sys.quarantined c = false → ¬ Works l.sys c →
    l.attempts c ≤ l.sys.failures c
  busy : l.processed c = false → l.sys.quarantined c = false →
    l.attempts c ≤ l.sys.failures c + 1
  marked : l.processed c = false → l.sys.quarantined c = true →
    l.attempts c ≤ config.maxAttempts
  processed : l.processed c = true → (l.sys.rows c.path).isSome ∧ l.sys.quarantined c = false

/-- What a task holds is so. -/
structure TaskOk (l : Life) (task : Task) : Prop where
  scans : ScansTs task
  registered : ∀ path ∈ task.registered, (l.sys.rows path).isSome
  open' : ∀ c, subject task.pc = some c → l.sys.quarantined c = false ∧ l.processed c = false
  found : ∀ path, found task.pc = some path → (l.sys.rows path).isSome
  making : ∀ path, making task.pc = some path → l.attempts ⟨path, .mp4⟩ = 0

/-- Every failure is counted, and one task at most is at a file. -/
structure Counted (config : Config) (l : Life) : Prop where
  fair : ∀ c, Fair config l c
  alone : ∀ (i j : Nat) (a b : Task) c d, l.sys.tasks[i]? = some a → l.sys.tasks[j]? = some b →
    subject a.pc = some c → subject b.pc = some d → c.path = d.path → i = j
  opened : ∀ path, 0 < l.attempts ⟨path, .mp4⟩ → (l.sys.mp4 path).isSome
  tasks : ∀ (i : Nat) (task : Task), l.sys.tasks[i]? = some task → TaskOk l task

theorem Fair.attempts (h : Fair config l c) (hfails : l.processed c = false) :
    l.attempts c ≤ config.maxAttempts := by
  have hbelow := h.below
  cases hmark : l.sys.quarantined c with
  | true => exact h.marked hfails hmark
  | false =>
    have hbusy := h.busy hfails hmark
    omega

theorem Fair.frame (h : Fair config l c)
    (hsame : l'.sys.failures c = l.sys.failures c ∧
      l'.sys.quarantined c = l.sys.quarantined c ∧ l'.attempts c = l.attempts c ∧
      l'.processed c = l.processed c)
    (hworks : Works l'.sys c ↔ Works l.sys c)
    (hrows : (l.sys.rows c.path).isSome → (l'.sys.rows c.path).isSome) : Fair config l' c := by
  obtain ⟨hfailures, hquarantined, hattempts, hprocessed⟩ := hsame
  obtain ⟨hbelow, hidle, hbusy, hmarked, hdone⟩ := h
  constructor <;> simp only [hfailures, hquarantined, hattempts, hprocessed, hworks] <;>
    first
      | assumption
      | exact fun h => ⟨hrows (hdone h).1, (hdone h).2⟩

theorem works_turn (hget : s.tasks[i]? = some task)
    (htasks : t.tasks = s.tasks.set i task')
    (hsame : subject task'.pc = some c ↔ subject task.pc = some c) : Works t c ↔ Works s c := by
  have hlt : i < s.tasks.length := (List.getElem?_eq_some_iff.mp hget).1
  unfold Works
  rw [htasks]
  constructor
  · rintro ⟨j, other, hj, hother⟩
    obtain ⟨rfl, rfl⟩ | ⟨-, hj⟩ := getElem?_set_some hj
    · exact ⟨j, task, hget, hsame.mp hother⟩
    · exact ⟨j, other, hj, hother⟩
  · rintro ⟨j, other, hj, hother⟩
    by_cases heq : i = j
    · subst heq
      rw [hget, Option.some.injEq] at hj
      subst hj
      exact ⟨i, task', List.getElem?_set_self hlt, hsame.mpr hother⟩
    · exact ⟨j, other, by rw [List.getElem?_set_ne heq]; exact hj, hother⟩

theorem making_subject {pc : Pc} (h : making pc = some path) :
    subject pc = some ⟨path, .ts⟩ := by
  cases pc <;> first | exact congrArg (Option.map (Candidate.mk · Kind.ts)) h | cases h

variable {o : Option Candidate}

theorem Counted.turn (h : Counted config l) (hget : l.sys.tasks[i]? = some task)
    (htasks : l'.sys.tasks = l.sys.tasks.set i task')
    (hold : ∀ c, subject task.pc = some c → o = some c)
    (hnew : ∀ c, subject task'.pc = some c → o = some c)
    (hfree : ∀ d, o = some d → ∀ (j : Nat) (other : Task) c, j ≠ i →
      l.sys.tasks[j]? = some other → subject other.pc = some c → c.path ≠ d.path)
    (hframe : ∀ c, o ≠ some c → l'.sys.failures c = l.sys.failures c ∧
      l'.sys.quarantined c = l.sys.quarantined c ∧ l'.attempts c = l.attempts c ∧
      l'.processed c = l.processed c)
    (hrows : ∀ path, (l.sys.rows path).isSome → (l'.sys.rows path).isSome)
    (hopened : ∀ path, 0 < l'.attempts ⟨path, .mp4⟩ → (l'.sys.mp4 path).isSome)
    (hfair : ∀ c, o = some c → Fair config l' c) (htask : TaskOk l' task') :
    Counted config l' := by
  have hother : ∀ {j : Nat} {other : Task}, j ≠ i → l.sys.tasks[j]? = some other →
      TaskOk l' other := by
    intro j other hne hj
    have hok := h.tasks j other hj
    -- what the other task has or makes is not the file of this one
    have hapart : ∀ c d, subject other.pc = some c → d.path = c.path → o ≠ some d :=
      fun c d hc hpath hd => hfree d hd j other c hne hj hc hpath.symm
    refine ⟨hok.scans, fun path hp => hrows path (hok.registered path hp), ?_,
      fun path hp => hrows path (hok.found path hp), ?_⟩
    · intro c hc
      obtain ⟨-, hquarantined, -, hprocessed⟩ := hframe c (hapart c c hc rfl)
      rw [hquarantined, hprocessed]
      exact hok.open' c hc
    · intro path hpath
      have hts := making_subject hpath
      rw [(hframe ⟨path, .mp4⟩ (hapart _ _ hts rfl)).2.2.1]
      exact hok.making path hpath
  refine ⟨?_, ?_, hopened, ?_⟩
  · intro c
    by_cases hc : o = some c
    · exact hfair c hc
    · refine (h.fair c).frame (hframe c hc) (works_turn hget htasks ?_) (hrows c.path)
      exact ⟨fun hs => absurd (hnew c hs) hc, fun hs => absurd (hold c hs) hc⟩
  · intro j k a b c d hj hk hc hd hpath
    rw [htasks] at hj hk
    obtain ⟨rfl, rfl⟩ | ⟨hnej, hj'⟩ := getElem?_set_some hj
    · obtain ⟨rfl, -⟩ | ⟨hnek, hk'⟩ := getElem?_set_some hk
      · rfl
      · exact absurd hpath.symm (hfree c (hnew c hc) k b d hnek hk' hd)
    · obtain ⟨rfl, rfl⟩ | ⟨-, hk'⟩ := getElem?_set_some hk
      · exact absurd hpath (hfree d (hnew d hd) j a c hnej hj' hc)
      · exact h.alone j k a b c d hj' hk' hc hd hpath
  · intro j other hj
    rw [htasks] at hj
    obtain ⟨rfl, rfl⟩ | ⟨hne, hj⟩ := getElem?_set_some hj
    · exact htask
    · exact hother hne hj

theorem Counted.apart (h : Counted config l) (hget : l.sys.tasks[i]? = some task)
    (hsub : subject task.pc = some c) (d : Candidate) (hd : some c = some d) (j : Nat)
    (other : Task) (e : Candidate) (hne : j ≠ i) (hj : l.sys.tasks[j]? = some other)
    (he : subject other.pc = some e) : e.path ≠ d.path := by
  obtain rfl := Option.some.inj hd
  exact fun hpath => hne (h.alone j i other task e c hj hget he hsub hpath)

theorem completed_unlinking (hget : s.tasks[i]? = some task) {fresh : Bool}
    (hpc : task.pc = .unlinking path fresh) : completed s t i = some ⟨path, .ts⟩ := by
  rw [completed, hget, Option.bind_some, hpc]

theorem completed_writing (hget : s.tasks[i]? = some task) (htasks : t.tasks = s.tasks.set i task')
    {capture : Nat} {existing : Bool} (hpc : task.pc = .writing c capture existing) :
    completed s t i = if task'.pc = .next then some c else none := by
  have hlt : i < s.tasks.length := (List.getElem?_eq_some_iff.mp hget).1
  simp only [completed, hget, Option.bind_some, hpc, htasks, List.getElem?_set_self hlt,
    Option.any_some, decide_eq_true_eq]

theorem completed_none (hget : s.tasks[i]? = some task)
    (hunlinking : ∀ path fresh, task.pc ≠ .unlinking path fresh)
    (hwriting : ∀ c capture existing, task.pc ≠ .writing c capture existing) :
    completed s t i = none := by
  rw [completed, hget, Option.bind_some]
  split
  · next hpc => exact absurd hpc (hunlinking _ _)
  · next hpc => exact absurd hpc (hwriting _ _ _)
  · rfl

theorem found_lookedUp (s : System) (c : Candidate) (capture : Nat) (path : SegmentPath)
    (h : found (.writing c capture (s.rows c.path).isSome) = some path) :
    (s.rows path).isSome := by
  cases hrow : (s.rows c.path).isSome with
  | true =>
    rw [hrow] at h
    rwa [← Option.some.inj h]
  | false =>
    rw [hrow] at h
    cases h

variable {u : System}

theorem Counted.goOn (h : Counted config l) {pc : Pc}
    (hget : l.sys.tasks[i]? = some task) (hold : subject task.pc = some c)
    (hnew : subject pc = some c) (hu : u.tasks = l.sys.tasks.set i { task with pc := pc })
    (hfailures : u.failures = l.sys.failures) (hquarantined : u.quarantined = l.sys.quarantined)
    (hrows : ∀ path, (l.sys.rows path).isSome → (u.rows path).isSome)
    (hmp4 : ∀ path, 0 < l.attempts ⟨path, .mp4⟩ → (l.sys.mp4 path).isSome → (u.mp4 path).isSome)
    (hmaking : ∀ path, making pc = some path → making task.pc = some path)
    (hfound : ∀ path, found pc = some path → (u.rows path).isSome)
    (hstays : ∀ path fresh, task.pc ≠ .unlinking path fresh) :
    Counted config ⟨u, l.attempts, mark l.processed (completed l.sys u i)⟩ := by
  have hok := h.tasks i task hget
  have hnone : completed l.sys u i = none := by
    cases hpc : task.pc with
    | unlinking path fresh => exact absurd hpc (hstays path fresh)
    | writing =>
      rw [completed_writing hget hu hpc]
      exact if_neg (by rintro rfl; cases hnew)
    | _ => exact completed_none hget (by simp [hpc]) (by simp [hpc])
  rw [hnone]
  change Counted config { l with sys := u }
  have hsame : ∀ d, u.failures d = l.sys.failures d ∧ u.quarantined d = l.sys.quarantined d ∧
      l.attempts d = l.attempts d ∧ l.processed d = l.processed d := by
    rw [hfailures, hquarantined]
    exact fun _ => ⟨rfl, rfl, rfl, rfl⟩
  refine h.turn (o := some c) hget hu (by simp [hold]) (by simp [hnew]) (h.apart hget hold)
    (fun d _ => hsame d) hrows (fun path hp => hmp4 path hp (h.opened path hp)) ?_ ?_
  · intro d _
    exact (h.fair d).frame (hsame d) (works_turn hget hu (by simp [hold, hnew])) (hrows d.path)
  · refine ⟨?_, fun path hp => hrows path (hok.registered path hp), ?_, hfound,
      fun path hp => hok.making path (hmaking path hp)⟩
    · intro pid final howner
      refine ⟨?_, (hok.scans pid final howner).2⟩
      rintro rfl
      cases hnew
    · intro d hd
      rw [show u.quarantined = _ from hquarantined]
      exact hok.open' d (by rw [hold, ← hnew]; exact hd)

theorem Counted.complete (h : Counted config l)
    (hget : l.sys.tasks[i]? = some task) (hold : subject task.pc = some c)
    (hu : u.tasks = l.sys.tasks.set i task') (hnext : task'.pc = .next)
    (howner : task'.owner = task.owner) (hqueue : task'.queue = task.queue)
    (hregistered : ∀ path ∈ task'.registered, path ∈ task.registered ∨ path = c.path)
    (hfailures : ∀ d, u.failures d = l.sys.failures d ∨ u.failures d = 0 ∧ d = c)
    (hquarantined : u.quarantined = l.sys.quarantined)
    (hrows : ∀ path, (l.sys.rows path).isSome → (u.rows path).isSome)
    (hrow : (u.rows c.path).isSome) (hmp4 : u.mp4 = l.sys.mp4) :
    Counted config ⟨u, l.attempts, mark l.processed (some c)⟩ := by
  have hok := h.tasks i task hget
  refine h.turn (o := some c) hget hu (by simp [hold]) (by simp [hnext, subject])
    (h.apart hget hold) ?_ hrows ?_ ?_ ?_
  · intro d hd
    have hne : d ≠ c := fun heq => hd (congrArg some heq.symm)
    have hsame : u.failures d = l.sys.failures d := (hfailures d).resolve_right (hne ·.2)
    exact ⟨hsame, congrFun hquarantined d, rfl, Function.update_of_ne hne ..⟩
  · intro path hp
    rw [show u.mp4 = _ from hmp4]
    exact h.opened path hp
  · rintro d ⟨⟩
    have hmarked : mark l.processed (some c) c = true := Function.update_self ..
    have hbelow := (h.fair c).below
    refine ⟨?_, ?_, ?_, ?_, ?_⟩ <;> simp only [hmarked, Bool.true_eq_false, false_implies]
    · obtain heq | ⟨heq, -⟩ := hfailures c <;> omega
    · exact fun _ => ⟨hrow, (congrFun hquarantined c).trans (hok.open' c hold).1⟩
  · refine ⟨?_, ?_, by simp [hnext, subject], by simp [hnext, found],
      by simp [hnext, making]⟩
    · intro pid final hscan
      exact ⟨by simp [hnext], hqueue ▸ (hok.scans pid final (howner ▸ hscan)).2⟩
    · intro path hp
      obtain hin | rfl := hregistered path hp
      · exact hrows path (hok.registered path hin)
      · exact hrow

theorem registered_tasks (i : Nat) (task : Task) (c : Candidate) (h : s'.tasks = s.tasks) :
    (registered s' i task c).tasks =
      s.tasks.set i { task with pc := .next, registered := c.path :: task.registered } := by
  have hstill := still_setKnown { s' with failures := Function.update s'.failures c 0 }
    task.owner c.path
  rw [registered, System.setTask, hstill.tasks, ← h]

theorem Counted.register (h : Counted config l)
    (hget : l.sys.tasks[i]? = some task) (hold : subject task.pc = some c)
    (htasks : u.tasks = l.sys.tasks) (hfailures : u.failures = l.sys.failures)
    (hquarantined : u.quarantined = l.sys.quarantined)
    (hrows : ∀ path, (l.sys.rows path).isSome → (u.rows path).isSome)
    (hrow : (u.rows c.path).isSome) (hmp4 : u.mp4 = l.sys.mp4) :
    Counted config ⟨registered u i task c, l.attempts, mark l.processed (some c)⟩ := by
  have hstill := still_setKnown { u with failures := Function.update u.failures c 0 }
    task.owner c.path
  have hsame : (registered u i task c).rows = u.rows := hstill.rows
  refine h.complete hget hold (registered_tasks i task c htasks) rfl rfl rfl ?_ ?_
    (hstill.quarantined.trans hquarantined) (by rw [hsame]; exact hrows)
    (by rw [hsame]; exact hrow) (hstill.mp4.trans hmp4)
  · intro path hp
    exact (List.mem_cons.mp hp).symm
  · intro d
    by_cases heq : d = c
    · subst heq
      exact .inr ⟨(congrFun hstill.failures d).trans (Function.update_self ..), rfl⟩
    · refine .inl ((congrFun hstill.failures d).trans ?_)
      exact (Function.update_of_ne heq ..).trans (congrFun hfailures d)

theorem Counted.fail (h : Counted config l) {marked : Bool}
    (hget : l.sys.tasks[i]? = some task) (hpc : task.pc = .failing c)
    (hmarked : marked = true ∨ l.sys.failures c + 1 < config.maxAttempts) :
    Counted config { l with
      sys := registerSegmentRemuxFailure config l.sys i task c marked } := by
  have hok := h.tasks i task hget
  have hold : subject task.pc = some c := by rw [hpc]; rfl
  obtain ⟨hunmarked, hfails⟩ := hok.open' c hold
  have hfair := h.fair c
  have hbusy := hfair.busy hfails hunmarked
  have hbelow := hfair.below
  have hopened := h.opened
  -- neither way anything but the counter and the marker of the file changes
  have hturn : ∀ (u : System), u.tasks = l.sys.tasks.set i { task with pc := .next } →
      (∀ d, d ≠ c → u.failures d = l.sys.failures d ∧ u.quarantined d = l.sys.quarantined d) →
      u.rows = l.sys.rows → u.mp4 = l.sys.mp4 → Fair config { l with sys := u } c →
      Counted config { l with sys := u } := by
    intro u hu hframe hrows hmp4 hnew
    refine h.turn (o := some c) hget hu (by simp [hold]) (by simp [subject])
      (h.apart hget hold) ?_ (by simp [hrows]) (by simpa [hmp4] using hopened) ?_ ?_
    · intro d hd
      obtain ⟨hfailures, hquarantined⟩ := hframe d fun heq => hd (congrArg some heq.symm)
      exact ⟨hfailures, hquarantined, rfl, rfl⟩
    · rintro d ⟨⟩
      exact hnew
    · refine ⟨?_, by simpa [hrows] using hok.registered, nofun, nofun, nofun⟩
      exact fun pid final hscan => ⟨by simp, (hok.scans pid final hscan).2⟩
  unfold registerSegmentRemuxFailure
  dsimp only
  split
  · next hlt =>
    refine hturn _ rfl (fun d hd => ⟨Function.update_of_ne hd .., rfl⟩) rfl rfl ?_
    refine ⟨?_, ?_, ?_, ?_, ?_⟩ <;>
      simp only [System.setTask, Function.update_self, hunmarked, hfails] <;> intros <;>
        first | omega | contradiction
  · next hge =>
    obtain rfl : marked = true := hmarked.resolve_right hge
    have hstill := still_setKnown { l.sys with
      failures := Function.update l.sys.failures c 0
      quarantined := Function.update l.sys.quarantined c (true || l.sys.quarantined c) }
      task.owner c.path
    refine hturn _ (by rw [System.setTask, hstill.tasks]) ?_ hstill.rows hstill.mp4 ?_
    · intro d hd
      simp only [System.setTask, hstill.failures, hstill.quarantined, Function.update_of_ne hd,
        and_self]
    · have hfailures := (congrFun hstill.failures c).trans (Function.update_self ..)
      have hquarantined := (congrFun hstill.quarantined c).trans (Function.update_self ..)
      have hnot : ∀ {P : Prop}, (System.setKnown _ _ _).quarantined c = false → P :=
        fun hq => absurd (hquarantined.symm.trans hq) (by simp)
      exact ⟨lt_of_eq_of_lt hfailures (by omega), fun _ hq => hnot hq, fun _ hq => hnot hq,
        fun _ _ => by dsimp only; omega, fun hdone => absurd (hfails.symm.trans hdone) (by simp)⟩

theorem Counted.rest (h : Counted config l) (hget : l.sys.tasks[i]? = some task)
    (hold : subject task.pc = none) (still : Still l.sys s') (hscans : ScansTs task')
    (hregistered : task'.registered = task.registered)
    (hpc : task'.pc = .next ∨ task'.pc = .finished) :
    Counted config { l with sys := s'.setTask i task' } := by
  have hnew : subject task'.pc = none := by obtain heq | heq := hpc <;> rw [heq] <;> rfl
  refine h.turn (o := none) hget (by rw [System.setTask, still.tasks]) (by simp [hold])
    (by simp [hnew]) (by simp) ?_ (fun path hp => ?_) (fun path hp => ?_) (by simp) ?_
  · exact fun c _ => ⟨congrFun still.failures c, congrFun still.quarantined c, rfl, rfl⟩
  · exact (congrArg Option.isSome (congrFun still.rows path)).trans hp
  · exact (congrArg Option.isSome (congrFun still.mp4 path)).trans (h.opened path hp)
  · refine ⟨hscans, ?_, by simp [hnew], ?_, ?_⟩
    · intro path hp
      have hrow := (h.tasks i task hget).registered path (hregistered ▸ hp)
      exact (congrArg Option.isSome (congrFun still.rows path)).trans hrow
    · intro path hp
      obtain heq | heq := hpc <;> rw [heq] at hp <;> cases hp
    · intro path hp
      rw [making_subject hp] at hnew
      cases hnew

theorem count_filter (attempts : Candidate → Nat) (p : Candidate → Bool) (c : Candidate) :
    (∀ d, d ≠ c → count attempts ((some c).filter p) d = attempts d) ∧
      count attempts ((some c).filter p) c ≤ attempts c + 1 := by
  rw [Option.filter_some]
  split
  · exact ⟨fun d hd => Function.update_of_ne hd .., le_of_eq (Function.update_self ..)⟩
  · exact ⟨fun _ _ => rfl, Nat.le_succ _⟩

theorem Counted.take (h : Counted config l) (hget : l.sys.tasks[i]? = some task)
    (hnext : task.pc = .next) (hmay : (due l.sys task).all (mayTake l) = true) :
    Counted config ⟨takeUp l.sys i task,
      count l.attempts ((due l.sys task).filter fun c => !leftover task c), l.processed⟩ := by
  have hok := h.tasks i task hget
  cases hdue : due l.sys task with
  | none =>
    obtain ⟨⟨u, task', heq, hstill, howner, hregistered, hqueue, hpc⟩⟩ :=
      takeUp_idle (i := i) hnext hdue
    rw [heq]
    refine h.rest hget (by rw [hnext]; rfl) hstill ?_ hregistered hpc
    intro pid final hscan
    refine ⟨by obtain heq | heq := hpc <;> simp [heq], ?_⟩
    exact fun c hc => (hok.scans pid final (howner ▸ hscan)).2 c (hqueue c hc)
  | some c =>
    obtain ⟨rest, pc, hqueue, htaken, heq⟩ := takeUp_due (i := i) hok.scans hdue
    simp only [hdue, Option.all_some, mayTake, Bool.and_eq_true] at hmay
    obtain ⟨⟨⟨hthere, hfails⟩, hfree⟩, hmp4⟩ := hmay
    rw [Bool.not_eq_true'] at hfails
    have hnobody : ∀ (j : Nat) (other : Task) d, l.sys.tasks[j]? = some other →
        subject other.pc = some d → d.path ≠ c.path := by
      intro j other d hj hd
      have hother := List.all_eq_true.mp hfree other (List.mem_of_getElem? hj)
      simpa [hd] using hother
    have hfair := h.fair c
    have hidle := hfair.idle hfails htaken.unmarked fun ⟨j, other, hj, hd⟩ =>
      hnobody j other c hj hd rfl
    obtain ⟨hsame, hone⟩ := count_filter l.attempts (fun c => !leftover task c) c
    generalize count l.attempts ((some c).filter fun c => !leftover task c) = attempts
      at hsame hone ⊢
    rw [heq]
    refine h.turn (o := some c) hget rfl (by simp [hnext, subject]) (by simp [htaken.subject])
      ?_ ?_ (fun _ hp => hp) ?_ ?_ ?_
    · rintro d ⟨⟩ j other e - hj he
      exact hnobody j other e hj he
    · exact fun d hd => ⟨rfl, rfl, hsame d fun heq => hd (congrArg some heq.symm), rfl⟩
    · intro path hp
      by_cases hc : (⟨path, .mp4⟩ : Candidate) = c
      · subst hc
        exact hthere
      · exact h.opened path (hsame _ hc ▸ hp)
    · rintro d ⟨⟩
      refine ⟨hfair.below, ?_, ?_, ?_, hfair.processed⟩
      · exact fun _ _ hworks => absurd ⟨i, _, List.getElem?_set_self
          (List.getElem?_eq_some_iff.mp hget).1, htaken.subject⟩ hworks
      · intro _ _
        dsimp only [System.setTask]
        omega
      · exact fun _ hmark => absurd (htaken.unmarked.symm.trans hmark) (by simp)
    · refine ⟨?_, hok.registered, ?_, ?_, ?_⟩
      · refine fun pid final hscan => ⟨?_, fun d hd => ?_⟩
        · rintro rfl
          cases htaken.subject
        · exact (hok.scans pid final hscan).2 d (hqueue ▸ List.mem_cons_of_mem _ hd)
      · intro d hd
        obtain rfl : c = d := Option.some.inj (htaken.subject.symm.trans hd)
        exact ⟨htaken.unmarked, hfails⟩
      · exact fun path hp => hok.registered path (htaken.registered path hp)
      · intro path hp
        obtain ⟨rfl, hempty⟩ := htaken.making path hp
        refine (hsame ⟨path, .mp4⟩ (by simp)).trans ?_
        by_contra hne
        -- what was attempted as an orphan is there, and empty here
        obtain ⟨file, hfile⟩ := Option.isSome_iff_exists.mp (h.opened path (by omega))
        rw [hfile, Option.all_some] at hempty
        simp [hfile, hempty, hne] at hmp4

/-! ## A step, and a run -/

theorem Counted.advance {event : Event} (h : Counted config l)
    (hget : l.sys.tasks[i]? = some task) (hmet : met config l (.task i event) = true)
    (hstep : SegmentPipeline.advance config l.sys i task event = some t) :
    Counted config ⟨t, count l.attempts (begun l.sys i event),
      mark l.processed (completed l.sys t i)⟩ := by
  have hok := h.tasks i task hget
  have hself : l.sys.tasks = l.sys.tasks.set i { task with pc := task.pc } := by
    obtain ⟨hlt, rfl⟩ := List.getElem?_eq_some_iff.mp hget
    exact (List.set_getElem_self hlt).symm
  have hsame : ∀ path, (l.sys.rows path).isSome → (l.sys.rows path).isSome := fun _ hp => hp
  -- a task that writes an `.mp4` leaves one behind
  have hwrites : ∀ {path : SegmentPath} {file : Mp4File} (q : SegmentPath),
      0 < l.attempts ⟨q, .mp4⟩ → (l.sys.mp4 q).isSome →
      ((l.sys.setMp4 path (some file)).mp4 q).isSome := by
    intro path file q _ hq
    by_cases heq : q = path
    · rw [heq, System.setMp4_self]
      rfl
    · rw [System.setMp4_ne _ heq]
      exact hq
  cases event with
  | walked candidates =>
    simp only [SegmentPipeline.advance] at hstep
    split at hstep
    · next hpc =>
      have hscans : ∀ task' : Task, task'.owner = task.owner → ScansTs task' :=
        fun task' howner pid final hscan =>
          absurd hpc (hok.scans pid final (howner ▸ hscan)).1
      rw [completed_none hget (by simp [hpc]) (by simp [hpc])]
      split at hstep
      · cases hstep
        exact h.rest hget (by rw [hpc]; rfl) (.refl _) (hscans _ rfl) rfl (.inl rfl)
      · split at hstep
        · cases hstep
          exact h.rest hget (by rw [hpc]; rfl) (.refl _) (hscans _ rfl) rfl (.inl rfl)
        · cases hstep
    · cases hstep
  | taken =>
    simp only [SegmentPipeline.advance] at hstep
    split at hstep
    · next hpc =>
      cases hstep
      have hmay : (due l.sys task).all (mayTake l) = true := by
        simpa only [met, hget, Option.all_some] using hmet
      rw [completed_none hget (by simp [hpc]) (by simp [hpc]), begun, hget, Option.bind_some]
      exact h.take hget hpc hmay
    · cases hstep
  | remuxOpened =>
    simp only [SegmentPipeline.advance] at hstep
    split at hstep
    · next path hpc =>
      obtain ⟨file, -, rfl⟩ := Option.map_eq_some_iff.mp hstep
      exact h.goOn hget (hpc ▸ rfl) rfl rfl rfl rfl hsame hwrites
        (fun _ hp => hpc ▸ hp) (by rintro _ ⟨⟩) (by simp [hpc])
    · cases hstep
  | remuxWrote =>
    simp only [SegmentPipeline.advance] at hstep
    split at hstep
    · next path remux input read hpc =>
      cases hstep
      obtain ⟨hfailures, hquarantined, hrows, hmp4⟩ := changeMp4_frame l.sys path remux _
      exact h.goOn (c := ⟨path, .ts⟩) hget (by rw [hpc]; rfl) (by rw [hpc]; rfl)
        ((changeMp4_tasks _ _ _).trans hself) hfailures hquarantined (by simp [hrows])
        (fun q _ => hmp4 q) (fun _ hp => hp) (by simp [hpc, found]) (by simp [hpc])
    · cases hstep
  | remuxDone =>
    simp only [SegmentPipeline.advance] at hstep
    split at hstep
    · next path remux input hpc =>
      cases hstep
      obtain ⟨hfailures, hquarantined, hrows, hmp4⟩ := changeMp4_frame l.sys path remux _
      exact h.goOn (c := ⟨path, .ts⟩) hget (by rw [hpc]; rfl) rfl
        (by rw [goTo, System.setTask, changeMp4_tasks]) hfailures hquarantined
        (by simp [goTo, System.setTask, hrows]) (fun q _ => hmp4 q) (by rintro _ ⟨⟩)
        (by rintro _ ⟨⟩) (by simp [hpc])
    · cases hstep
  | remuxFailed =>
    simp only [SegmentPipeline.advance] at hstep
    split at hstep
    · next path hpc =>
      cases hstep
      exact h.goOn hget (by rw [hpc]; rfl) rfl rfl rfl rfl hsame (fun _ _ hq => hq)
        (fun _ hp => hpc ▸ hp) (by rintro _ ⟨⟩) (by simp [hpc])
    · next path remux input read hpc =>
      cases hstep
      obtain ⟨hfailures, hquarantined, hrows, hmp4⟩ := changeMp4_frame l.sys path remux _
      have htasks : (goTo (changeMp4 l.sys path remux (·.close remux)) i task
          (.removing path)).tasks = l.sys.tasks.set i { task with pc := .removing path } := by
        rw [goTo, System.setTask, changeMp4_tasks]
      exact h.goOn (c := ⟨path, .ts⟩) hget (by rw [hpc]; rfl) rfl htasks hfailures hquarantined
        (by simp [goTo, System.setTask, hrows]) (fun q _ => hmp4 q) (fun _ hp => hpc ▸ hp)
        (by rintro _ ⟨⟩) (by simp [hpc])
    · cases hstep
  | removed ok =>
    simp only [SegmentPipeline.advance] at hstep
    split at hstep
    · next path hpc =>
      cases hstep
      have hmade : l.attempts ⟨path, .mp4⟩ = 0 := hok.making path (hpc ▸ rfl)
      cases ok with
      | false =>
        exact h.goOn hget (hpc ▸ rfl) rfl rfl rfl rfl hsame (fun _ _ hq => hq) (by rintro _ ⟨⟩)
          (by rintro _ ⟨⟩) (by simp [hpc])
      | true =>
        refine h.goOn hget (hpc ▸ rfl) rfl rfl rfl rfl hsame ?_ (by rintro _ ⟨⟩)
          (by rintro _ ⟨⟩) (by simp [hpc])
        intro q hpos hq
        have hne : q ≠ path := by
          rintro rfl
          omega
        exact (congrArg Option.isSome (System.setMp4_ne _ hne none)).trans hq
    · cases hstep
  | written ok =>
    simp only [SegmentPipeline.advance] at hstep
    split at hstep
    · next c capture existing hpc =>
      have hold : subject task.pc = some c := by rw [hpc]; rfl
      split at hstep
      · next hwritten =>
        generalize hu : (if existing then l.sys else l.sys.setRow c.path capture) = u at hstep
        have hrow : (u.rows c.path).isSome := by
          subst hu
          cases existing with
          | true => exact hok.found c.path (hpc ▸ rfl)
          | false => exact congrArg Option.isSome (System.setRow_self _ _ _)
        have hrows : ∀ path, (l.sys.rows path).isSome → (u.rows path).isSome := by
          intro path hp
          by_cases heq : path = c.path
          · exact heq ▸ hrow
          · subst hu
            split
            · exact hp
            · exact (congrArg Option.isSome (System.setRow_ne _ heq capture)).trans hp
        have hrest : u.tasks = l.sys.tasks ∧ u.failures = l.sys.failures ∧
            u.quarantined = l.sys.quarantined ∧ u.mp4 = l.sys.mp4 := by
          subst hu
          split <;> exact ⟨rfl, rfl, rfl, rfl⟩
        obtain ⟨htasks, hfailures, hquarantined, hmp4⟩ := hrest
        split at hstep
        · next hkind =>
          cases hstep
          refine h.goOn hget hold ?_ (by rw [goTo, System.setTask, htasks]) hfailures hquarantined
            hrows (fun _ _ hq => hmp4 ▸ hq) (by simp [making]) ?_ (by simp [hpc])
          · rw [subject, ← hkind]
          · rintro path ⟨⟩
            exact hrow
        · cases hstep
          have hdone : completed l.sys (registered u i task c) i = some c := by
            rw [completed_writing hget (registered_tasks i task c htasks) hpc]
            rfl
          rw [hdone]
          exact h.register hget hold htasks hfailures hquarantined hrows hrow hmp4
      · cases hstep
        exact h.goOn hget hold rfl rfl rfl rfl hsame (fun _ _ hq => hq) (by rintro _ ⟨⟩)
          (by rintro _ ⟨⟩) (by simp [hpc])
    · cases hstep
  | unlinked ok =>
    simp only [SegmentPipeline.advance] at hstep
    split at hstep
    · next path fresh hpc =>
      have hold : subject task.pc = some ⟨path, .ts⟩ := by rw [hpc]; rfl
      have hrow : (l.sys.rows path).isSome := hok.found path (hpc ▸ rfl)
      generalize hu : (if ok then l.sys.setTs path none else l.sys) = u at hstep
      have hrest : Still l.sys u := by
        subst hu
        split <;> exact ⟨rfl, rfl, rfl, rfl, rfl⟩
      rw [completed_unlinking hget hpc]
      split at hstep
      · cases hstep
        exact h.register hget hold hrest.tasks hrest.failures hrest.quarantined
          (by rw [hrest.rows]; exact hsame) (by rw [hrest.rows]; exact hrow) hrest.mp4
      · cases hstep
        have htasks : (goTo u i task .next).tasks =
            l.sys.tasks.set i { task with pc := .next } := by
          rw [goTo, System.setTask, hrest.tasks]
        exact h.complete hget hold htasks rfl rfl rfl (fun _ hp => .inl hp)
          (fun d => .inl (congrFun hrest.failures d)) hrest.quarantined
          (fun p hp => (congrArg Option.isSome (congrFun hrest.rows p)).trans hp)
          ((congrArg Option.isSome (congrFun hrest.rows path)).trans hrow) hrest.mp4
    · cases hstep
  | failureCounted marked =>
    simp only [SegmentPipeline.advance] at hstep
    split at hstep
    · next c hpc =>
      cases hstep
      rw [completed_none hget (by simp [hpc]) (by simp [hpc])]
      refine h.fail hget hpc ?_
      simpa [met, hget, hpc, subject] using hmet
    · cases hstep
  | _ =>
    simp only [SegmentPipeline.advance] at hstep
    repeat' split at hstep
    all_goals cases hstep
    all_goals
      exact h.goOn hget (by rw [‹task.pc = _›]; rfl) rfl rfl rfl rfl hsame
        (fun _ _ hq => hq) (by simp [‹task.pc = _›, making])
        (by first | exact found_lookedUp _ _ _ | simp [found]) (by simp [‹task.pc = _›])

theorem Counted.grow (h : Counted config l) (new : List Task)
    (htasks : u.tasks = l.sys.tasks ++ new) (hfailures : u.failures = l.sys.failures)
    (hquarantined : u.quarantined = l.sys.quarantined) (hrows : u.rows = l.sys.rows)
    (hmp4 : u.mp4 = l.sys.mp4)
    (hnew : ∀ task ∈ new, subject task.pc = none ∧ found task.pc = none ∧
      making task.pc = none ∧ ScansTs task ∧ ∀ path ∈ task.registered, (l.sys.rows path).isSome) :
    Counted config { l with sys := u } := by
  have hcases : ∀ {j : Nat} {task : Task}, u.tasks[j]? = some task →
      l.sys.tasks[j]? = some task ∨ task ∈ new := by
    intro j task hj
    rw [htasks, List.getElem?_append] at hj
    split at hj
    · exact .inl hj
    · exact .inr (List.mem_of_getElem? hj)
  have hold : ∀ {j : Nat} {task : Task} {c : Candidate}, u.tasks[j]? = some task →
      subject task.pc = some c → l.sys.tasks[j]? = some task := by
    intro j task c hj hc
    refine (hcases hj).resolve_right fun hmem => ?_
    rw [(hnew task hmem).1] at hc
    cases hc
  refine ⟨fun c => ?_, ?_, by rw [hmp4]; exact h.opened, fun j task hj => ?_⟩
  · refine (h.fair c).frame ⟨congrFun hfailures c, congrFun hquarantined c, rfl, rfl⟩ ?_
      fun hr => (congrArg Option.isSome (congrFun hrows c.path)).trans hr
    constructor
    · rintro ⟨j, task, hj, hc⟩
      exact ⟨j, task, hold hj hc, hc⟩
    · rintro ⟨j, task, hj, hc⟩
      refine ⟨j, task, ?_, hc⟩
      rw [htasks, List.getElem?_append_left (List.getElem?_eq_some_iff.mp hj).1]
      exact hj
  · exact fun i j a b c d hi hj hc hd => h.alone i j a b c d (hold hi hc) (hold hj hd) hc hd
  · rw [← hrows] at hnew
    obtain hin | hmem := hcases hj
    · obtain ⟨hscans, hregistered, hopen, hfound, hmaking⟩ := h.tasks j task hin
      exact ⟨hscans, by rwa [hrows], by rwa [hquarantined], by rwa [hrows], hmaking⟩
    · obtain ⟨hsubject, hfound, hmaking, hscans, hregistered⟩ := hnew task hmem
      exact ⟨hscans, hregistered, by simp [hsubject], by simp [hfound], by simp [hmaking]⟩

theorem startLife_counted (hpos : 0 < config.maxAttempts) (s : System) :
    Counted config (startLife s) := by
  have hnone : ∀ i, (startLife s).sys.tasks[i]? = none := fun _ => List.getElem?_nil
  refine ⟨fun c => ?_, ?_, fun _ hp => absurd hp (Nat.lt_irrefl 0), ?_⟩
  · exact ⟨hpos, fun _ _ _ => le_rfl, fun _ _ => Nat.zero_le _, fun _ _ => Nat.zero_le _,
      fun hp => by cases hp⟩
  · intro i j a b c d hi
    rw [hnone] at hi
    cases hi
  · intro i task hi
    rw [hnone] at hi
    cases hi

variable {a : Label}

theorem step_counted (hpos : 0 < config.maxAttempts) (h : Counted config l)
    (hmet : Met config l a) (hstep : step config l a = some l') : Counted config l' := by
  obtain ⟨t, ht, rfl⟩ := Option.map_eq_some_iff.mp hstep
  have hsame : ∀ u : System, Still l.sys u → Counted config { l with sys := u } :=
    fun u hu => h.grow [] (by rw [hu.tasks, List.append_nil]) hu.failures
      hu.quarantined hu.rows hu.mp4 (by simp)
  cases a with
  | task i event =>
    obtain ⟨task, hget, hadvance⟩ := Option.bind_eq_some_iff.mp ht
    exact h.advance hget hmet hadvance
  | crash =>
    cases ht
    exact startLife_counted hpos { l.sys with
      mp4 := fun path => (l.sys.mp4 path).map fun file => { file with writers := [] } }
  | opens pid =>
    obtain ⟨proc, -, hopens⟩ := Option.bind_eq_some_iff.mp ht
    split at hopens
    · cases hopens
      exact hsame _ ⟨rfl, rfl, rfl, rfl, rfl⟩
    · cases hopens
  | writes pid =>
    obtain ⟨proc, -, hwrites⟩ := Option.bind_eq_some_iff.mp ht
    split at hwrites
    · cases hwrites
      refine hsame _ ?_
      unfold writeSegment
      repeat' split
      all_goals exact ⟨rfl, rfl, rfl, rfl, rfl⟩
    · cases hwrites
  | closes pid =>
    obtain ⟨proc, -, rfl⟩ := Option.map_eq_some_iff.mp ht
    exact hsame _ ⟨rfl, rfl, rfl, rfl, rfl⟩
  | finalize pid =>
    obtain ⟨proc, -, hfinalize⟩ := Option.bind_eq_some_iff.mp ht
    split at hfinalize
    · cases hfinalize
      exact hsame _ ⟨rfl, rfl, rfl, rfl, rfl⟩
    · cases hfinalize
  | scan pid final =>
    simp only [SegmentPipeline.step] at ht
    split at ht
    · cases ht
      refine h.grow _ rfl rfl rfl rfl rfl ?_
      intro task hmem
      obtain rfl := List.mem_singleton.mp hmem
      refine ⟨rfl, rfl, rfl, fun _ _ _ => ⟨by simp, fun c hc => ?_⟩, by simp⟩
      obtain ⟨path, -, rfl⟩ := List.mem_map.mp hc
      rfl
    · cases ht
  | recover =>
    cases ht
    refine h.grow _ rfl rfl rfl rfl rfl ?_
    intro task hmem
    obtain rfl := List.mem_singleton.mp hmem
    exact ⟨rfl, rfl, rfl, by rintro _ _ ⟨⟩, fun path hp => (List.mem_filter.mp hp).2⟩
  | setClock clock => cases ht; exact hsame _ ⟨rfl, rfl, rfl, rfl, rfl⟩
  | spawn => cases ht; exact hsame _ ⟨rfl, rfl, rfl, rfl, rfl⟩

theorem mark_false {processed : Candidate → Bool}
    (h : mark processed o c = false) : processed c = false ∧ o ≠ some c := by
  cases o with
  | none => exact ⟨h, nofun⟩
  | some d =>
    rw [mark, Function.update_apply] at h
    split at h
    · cases h
    · next hne => exact ⟨h, fun heq => hne (Option.some.inj heq).symm⟩

theorem count_pos {attempts : Candidate → Nat}
    (h : 0 < count attempts o c) : 0 < attempts c ∨ o = some c := by
  cases o with
  | none => exact .inl h
  | some d =>
    rw [count, Function.update_apply] at h
    split at h
    · next heq => exact .inr (congrArg some heq.symm)
    · exact .inl h

/-- A `.ts` that has been attempted and only failed stays where it is. -/
def Stays (l : Life) : Prop :=
  ∀ path, 0 < l.attempts ⟨path, .ts⟩ → l.processed ⟨path, .ts⟩ = false →
    l.sys.ts path ≠ none

theorem step_stays (h : Stays l) (hmet : Met config l a)
    (hstep : step config l a = some l') : Stays l' := by
  obtain ⟨t, ht, rfl⟩ := Option.map_eq_some_iff.mp hstep
  intro path hpos hfails hgone
  cases a with
  | crash => exact absurd hpos (Nat.lt_irrefl 0)
  | task i event =>
    obtain ⟨task, hget, hadvance⟩ := Option.bind_eq_some_iff.mp ht
    obtain ⟨hfails', hnot⟩ := mark_false hfails
    have hthere : l.sys.ts path ≠ none := by
      obtain hold | hbegun := count_pos hpos
      · exact h path hold hfails'
      · cases event with
        | taken =>
          rw [begun, hget, Option.bind_some, Option.filter_eq_some_iff] at hbegun
          have hmay : (due l.sys task).all (mayTake l) = true := by
            simpa only [Met, met, hget, Option.all_some] using hmet
          simp only [hbegun.1, Option.all_some, mayTake, exists?, Bool.and_eq_true] at hmay
          rw [← Option.isSome_iff_ne_none]
          exact hmay.1.1.1
        | _ => cases hbegun
    obtain hsame | ⟨q, fresh, hpc, hnew⟩ := advance_ts hadvance
    · exact hthere ((congrFun hsame path).symm.trans hgone)
    · have hne : path ≠ q := by
        rintro rfl
        exact hnot (by rw [completed, hget, Option.bind_some, hpc])
      rw [show t.ts path = _ from (congrFun hnew path).trans (System.setTs_ne _ hne none)] at hgone
      exact hthere hgone
  | _ =>
    obtain ⟨file, hfile⟩ := Option.ne_none_iff_exists'.mp (h path hpos hfails)
    obtain ⟨i, event, hlabel, -⟩ := step_removes ht hfile hgone
    cases hlabel

theorem step_quarantined (h : Counted config l)
    (hstep : step config l a = some l') (hmarked : l.sys.quarantined c = true) :
    l'.attempts c ≤ l.attempts c := by
  obtain ⟨t, ht, rfl⟩ := Option.map_eq_some_iff.mp hstep
  cases a with
  | task i event =>
    obtain ⟨task, hget, -⟩ := Option.bind_eq_some_iff.mp ht
    show count l.attempts (begun l.sys i event) c ≤ l.attempts c
    cases hbegun : begun l.sys i event with
    | none => exact le_rfl
    | some d =>
      have hunmarked : l.sys.quarantined d = false := by
        cases event with
        | taken =>
          rw [begun, hget, Option.bind_some] at hbegun
          obtain ⟨hdue, -⟩ := Option.filter_eq_some_iff.mp hbegun
          obtain ⟨_, _, -, htaken, -⟩ := takeUp_due (i := i) (h.tasks i task hget).scans hdue
          exact htaken.unmarked
        | _ => cases hbegun
      have hne : c ≠ d := by
        rintro rfl
        rw [hunmarked] at hmarked
        cases hmarked
      exact le_of_eq (Function.update_of_ne hne ..)
  | crash => exact Nat.zero_le _
  | _ => exact le_rfl

/-- In every run whose steps meet the condition the attempts at a file are bounded, and what only
fails is kept. -/
theorem attempts_bounded (graceSeconds : Nat) (configured : ℚ)
    (h : Reach (life (configOf graceSeconds configured)) (Met (configOf graceSeconds configured)) l) :
    Bounded (configOf graceSeconds configured) l := by
  have hpos : 0 < (configOf graceSeconds configured).maxAttempts :=
    getSegmentRemuxMaxAttempts_pos configured
  obtain ⟨hcounted, hstays⟩ : Counted (configOf graceSeconds configured) l ∧ Stays l := by
    refine h.invariant (I := fun l => Counted _ l ∧ Stays l) ?_ fun s a t hs hguard hstep =>
      ⟨step_counted hpos hs.1 hguard hstep, step_stays hs.2 hguard hstep⟩
    rintro l ⟨s, rfl⟩
    exact ⟨startLife_counted hpos s, fun _ hp => absurd hp (Nat.lt_irrefl 0)⟩
  refine ⟨fun c => (hcounted.fair c).attempts, ?_, fun c a l' => step_quarantined hcounted,
    fun c => (hcounted.fair c).processed⟩
  rintro ⟨path, kind⟩ hattempted hfails
  cases kind with
  | ts => exact Option.isSome_iff_ne_none.mpr (hstays path hattempted hfails)
  | mp4 => exact hcounted.opened path hattempted

/-! ## Runs -/

/-- A `.ts` left behind. -/
def left : Candidate := ⟨⟨0, 100⟩, .ts⟩

def leftBehind : Life :=
  startLife { newSystem 1000 with
    names := [left.path]
    ts := Function.update (fun _ => none) left.path (some ⟨⟨0, 1⟩, 0⟩) }

def recovery (i : Nat) : List Label := [.recover, .task i (.walked [left]), .task i .taken]

def failing (i : Nat) (marked : Bool) : List Label :=
  recovery i ++ ([.task i .remuxFailed, .task i (.removed true),
    .task i (.failureCounted marked)] : List Label)

theorem attempts_bounded_thrice : ∃ l, Reach (life (configOf 300 3)) (Met (configOf 300 3)) l ∧
    l.attempts left = 3 ∧ Bounded (configOf 300 3) l := by
  have hrun : ((life (configOf 300 3)).run (met (configOf 300 3)) leftBehind
      (failing 0 false ++ failing 1 false ++ failing 2 true)).map (·.attempts left) = some 3 := by
    decide
  obtain ⟨l, hreach, hthree⟩ :=
    reach_of_run (G := Met (configOf 300 3)) hrun ⟨_, rfl⟩ (fun _ _ h => h)
  exact ⟨l, hreach, hthree, attempts_bounded 300 3 hreach⟩

/-- The marker cannot be written, and the fourth recovery takes the file up again. -/
theorem not_attempts_bounded :
    ¬ ∀ l, Reach (life (configOf 300 3)) Always l → Bounded (configOf 300 3) l := by
  intro h
  have hrun : ((life (configOf 300 3)).run anyStep leftBehind
      (failing 0 false ++ failing 1 false ++ failing 2 false ++ recovery 3)).map
        (fun l => (l.attempts left, l.processed left)) = some (4, false) := by
    decide
  obtain ⟨l, hreach, hfour⟩ := reach_of_anyStep hrun ⟨_, rfl⟩
  obtain ⟨hfour, hfails⟩ := Prod.mk.injEq _ _ _ _ ▸ hfour
  have hbounded := (h l hreach).attempts left hfails
  rw [hfour] at hbounded
  exact absurd hbounded (by decide)

end Drac.Recordings.SegmentPipeline.RemuxAttempts
