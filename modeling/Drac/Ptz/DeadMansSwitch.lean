import Drac.Ptz.PtzWatchdogs

/-
  The dead man's switch of a moving camera.

  A motion that is on is attended while a watchdog is pending or a call is in flight that
  still sends a command. Nothing but the end of a call takes that away, and of the ends only
  two kinds can: the last thing a call has to try comes to nothing, or a stop of the CGI is
  read as accepted. The guard speaks of the motions that are on then, of what was asked to be
  stopped and of the camera's answer.

    sendsAfter             a command in flight comes to be sent, where the camera's ports answer
-/

namespace Drac.Ptz

open Runs

/-! ## Commands in flight -/

/-- The command is on its way to the camera. -/
def SendPc.Out : SendPc → Prop
  | .cgi .. | .onvif .. | .relative .. => True
  | .findPort .. | .cgiPort .. | .discover .. => False

/-- Some answers bring the command onto its way. -/
inductive Send.SendsAfter : Send → Prop where
  | out {send : Send} : send.pc.Out → send.SendsAfter
  | later {send : Send} (answer : Answer) (pc : SendPc) : send.advance answer = some (.next pc) →
      Send.SendsAfter { send with pc := pc } → send.SendsAfter

def Call.StillSends : Call → Prop
  | .sending send => send.SendsAfter
  | .sleeping direction camera => (Send.begin (.stepStop direction) camera).SendsAfter

theorem mem_distinct {α : Type} [DecidableEq α] {list : List α} {a : α} :
    a ∈ distinct list ↔ a ∈ list := by
  have hfold : ∀ (rest seen : List α),
      a ∈ rest.foldl (fun seen b => if b ∈ seen then seen else seen ++ [b]) seen ↔
        a ∈ seen ∨ a ∈ rest := by
    intro rest
    induction rest with
    | nil => intro seen; simp
    | cons b rest ih =>
      intro seen
      rw [List.foldl_cons, ih]
      split
      · next hb =>
        rw [List.mem_cons]
        constructor
        · rintro (h | h)
          · exact .inl h
          · exact .inr (.inr h)
        · rintro (h | rfl | h)
          · exact .inl h
          · exact .inl hb
          · exact .inr h
      · rw [List.mem_append, List.mem_singleton, List.mem_cons, or_assoc]
  rw [distinct, hfold]
  simp

theorem candidatePaths_ne_nil (preferred : Option String) : candidatePaths preferred ≠ [] := by
  have hmem : "/onvif/ptz_service" ∈ candidatePaths preferred := mem_distinct.mpr (by simp)
  exact List.ne_nil_of_mem hmem

theorem candidateProfileTokens_ne_nil (preferred : Option String) (channel : Int)
    (discovered : List String) : candidateProfileTokens preferred channel discovered ≠ [] := by
  have hmem : "Profile000" ∈ candidateProfileTokens preferred channel discovered :=
    mem_distinct.mpr (by simp)
  exact List.ne_nil_of_mem hmem

theorem proprietaryPorts_ne_nil (camera : PtzCamera) : proprietaryPorts camera ≠ [] := by
  have hmem : (80 : Int) ∈ proprietaryPorts camera := mem_distinct.mpr (by simp)
  exact List.ne_nil_of_mem hmem

section Sends

variable {kind : CallKind} {camera : PtzCamera}

theorem onvifTries_ne_nil (send : Send) (tokens : List String) : send.onvifTries tokens ≠ [] := by
  intro hnil
  rw [Send.onvifTries, List.flatMap_eq_nil_iff] at hnil
  obtain ⟨path, hpath⟩ := List.exists_mem_of_ne_nil _ (candidatePaths_ne_nil send.camera.onvifPath)
  exact candidateProfileTokens_ne_nil _ _ _ (List.map_eq_nil_iff.mp (hnil path hpath))

theorem cgiTries_ne_nil (send : Send) {reachable : List Int} (h : reachable ≠ []) :
    send.cgiTries reachable ≠ [] := by
  obtain ⟨port, hport⟩ := List.exists_mem_of_ne_nil _ h
  have hchannel : (1 : Int) ∈ proprietaryChannels send.camera := mem_distinct.mpr (by simp)
  have hcodes : ∀ direction, proprietaryDirectionCode direction ≠ [] := by
    intro direction
    cases direction <;> simp [proprietaryDirectionCode]
  have hdirections : send.cgiDirections ≠ [] := by
    unfold Send.cgiDirections
    split <;> simp
  obtain ⟨item, hitem⟩ := List.exists_mem_of_ne_nil _ hdirections
  intro hnil
  rw [Send.cgiTries, List.flatMap_eq_nil_iff] at hnil
  have hchannels := List.flatMap_eq_nil_iff.mp (hnil port hport) 1 hchannel
  exact hcodes item (List.map_eq_nil_iff.mp (List.flatMap_eq_nil_iff.mp hchannels item hitem))

section

attribute [local simp] Send.advance

theorem sendsAfter_discover (onvifPort : Int) (rest : List String) : ∀ path tokens,
    Send.SendsAfter ⟨kind, camera, .discover onvifPort path rest tokens⟩ := by
  induction rest with
  | nil =>
    intro path tokens
    cases htries : Send.onvifTries ⟨kind, camera, .discover onvifPort path [] tokens⟩
        (distinct (tokens ++ [])) with
    | nil => exact absurd htries (onvifTries_ne_nil _ _)
    | cons attempt others =>
      refine .later (.profiles []) (.onvif onvifPort attempt others) ?_ (.out trivial)
      simp only [Send.advance, Send.discoverNext, htries, Send.onvifNext]
  | cons next rest ih =>
    intro path tokens
    exact .later (.profiles []) (.discover onvifPort next rest (tokens ++ [])) rfl (ih next _)

theorem sendsAfter_cgiPort (preferred : Bool) (onvifPort : Int) (rest : List Int) :
    ∀ port reachable,
      Send.SendsAfter ⟨kind, camera, .cgiPort preferred onvifPort port rest reachable⟩ := by
  induction rest with
  | nil =>
    intro port reachable
    cases htries : Send.cgiTries ⟨kind, camera, .cgiPort preferred onvifPort port [] reachable⟩
        (reachable ++ [port]) with
    | nil => exact absurd htries (cgiTries_ne_nil _ (by simp))
    | cons attempt others =>
      refine .later (.port true) (.cgi preferred onvifPort attempt others) ?_ (.out trivial)
      simp only [Send.advance, if_true, Send.cgiPortNext, htries, Send.cgiNext]
  | cons next rest ih =>
    intro port reachable
    exact .later (.port true) (.cgiPort preferred onvifPort next rest (reachable ++ [port])) rfl
      (ih next _)

theorem sendsAfter_findPort (port : Int) (rest : List Int) :
    Send.SendsAfter ⟨kind, camera, .findPort port rest⟩ := by
  by_cases hprefer : shouldPreferProprietaryPtz camera = true
  · cases hports : proprietaryPorts camera with
    | nil => exact absurd hports (proprietaryPorts_ne_nil camera)
    | cons first others =>
      refine .later (.port true) (.cgiPort true port first others []) ?_
        (sendsAfter_cgiPort true port others first [])
      simp only [Send.advance, Send.portFound, if_true, hprefer, Send.cgiStart, hports,
        Send.cgiPortNext]
  · cases hpaths : candidatePaths camera.onvifPath with
    | nil => exact absurd hpaths (candidatePaths_ne_nil _)
    | cons path others =>
      refine .later (.port true) (.discover port path others []) ?_
        (sendsAfter_discover port others path [])
      simp only [Send.advance, Send.portFound, if_true, hprefer, Send.discoverStart, hpaths]
      simp

end

/-- **A command in flight comes to be sent**, where the camera's ports answer. -/
theorem sendsAfter (send : Send) : send.SendsAfter := by
  obtain ⟨kind, camera, pc⟩ := send
  cases pc with
  | findPort port rest => exact sendsAfter_findPort port rest
  | cgiPort preferred onvifPort port rest reachable =>
    exact sendsAfter_cgiPort preferred onvifPort rest port reachable
  | cgi preferred onvifPort attempt rest => exact .out trivial
  | discover onvifPort path rest tokens => exact sendsAfter_discover onvifPort rest path tokens
  | onvif onvifPort attempt rest => exact .out trivial
  | relative onvifPort attempt rest => exact .out trivial

theorem stillSends (call : Call) : call.StillSends := by
  cases call with
  | sending send => exact sendsAfter send
  | sleeping direction camera => exact sendsAfter _

end Sends

/-! ## The switch -/

/-- Where a motion is on, a watchdog is pending or a call in flight still sends. -/
def Attended (s : PtzState) : Prop :=
  s.motions ≠ [] → s.watchdogs ≠ [] ∨ ∃ call ∈ s.calls, call.StillSends

theorem attended_iff_calls (s : PtzState) :
    Attended s ↔ (s.motions = [] ∨ s.watchdogs ≠ [] ∨ s.calls ≠ []) := by
  have hcalls : (∃ call ∈ s.calls, call.StillSends) ↔ s.calls ≠ [] := by
    constructor
    · rintro ⟨call, hmem, -⟩
      exact List.ne_nil_of_mem hmem
    · intro hne
      obtain ⟨call, hmem⟩ := List.exists_mem_of_ne_nil _ hne
      exact ⟨call, hmem, stillSends call⟩
  unfold Attended
  rw [hcalls]
  tauto

/-! ## The guard -/

/-- The last thing a call has to try: a port, or a command of the CGI after ONVIF. -/
def SendPc.isLast : SendPc → Bool
  | .findPort _ [] | .cgiPort false _ _ [] [] | .cgi false _ _ [] => true
  | _ => false

/-- A port that is silent, a command that is refused or whose answer is lost. -/
def Answer.isNegative : Answer → Bool
  | .port reachable => !reachable
  | .command answer => !answer.cgiOk
  | .profiles _ | .slept => false

/-- A stop of the CGI is read as accepted. -/
def Send.cgiStopped (send : Send) (answer : Answer) : Bool :=
  match send.pc, send.action, answer with
  | .cgi .., .stop _, .command answer => answer.cgiOk
  | _, _, _ => false

def Direction.isZoom (direction : Direction) : Bool :=
  direction = .zoomIn || direction = .zoomOut

/-- The motion is in the direction that was asked to be stopped; a zoom, which has two codes,
goes by the code that is answered. Where no direction was asked for, the code that is answered
is the motion's. -/
def asked (direction : Option Direction) (code : PtzCode) (motion : Motion) : Bool :=
  match direction with
  | some direction =>
    motion.direction = direction && (!direction.isZoom || motion.code.all (· = code))
  | none => code.covers motion

/-- Nothing is on once the answer is in: the camera took a stop that was asked for all that is
on, or it took nothing and nothing is on. -/
def Send.stills (send : Send) (answer : Answer) (motions : List Motion) : Bool :=
  match send.pc, send.action, answer with
  | .cgi .., .start _, .command answer => !answer.taken && motions.isEmpty
  | .cgi _ _ attempt _, .stop direction, .command answer =>
    if answer.taken then motions.all (asked direction attempt.code) else motions.isEmpty
  | _, _, _ => motions.isEmpty

/-- A watchdog is pending, or another call is in flight. -/
def PtzState.others (s : PtzState) (i : Nat) : Bool :=
  !s.watchdogs.isEmpty || !(s.calls.eraseIdx i).isEmpty

/-- Where the last thing a call has to try comes to nothing, or a stop of the CGI is read as
accepted, the camera is still then, or others attend to it. -/
def keepsSwitch (s : PtzState) : Label → Bool
  | .answer i answer =>
    match s.calls[i]? with
    | some (.sending send) =>
      !(send.pc.isLast && answer.isNegative || send.cgiStopped answer) ||
        send.stills answer s.motions || s.others i
    | _ => true
  | _ => true

/-! ## The codes -/

/-- The CGI is only sent codes of the directions that were asked for. -/
def Send.Coded (send : Send) : Prop :=
  ∀ preferred onvifPort attempt rest, send.pc = .cgi preferred onvifPort attempt rest →
    ∀ t ∈ attempt :: rest, ∃ direction ∈ send.cgiDirections,
      t.code ∈ proprietaryDirectionCode direction

def Motion.Coded (motion : Motion) : Prop :=
  ∀ code, motion.code = some code → code ∈ proprietaryDirectionCode motion.direction

/-- Every call and every motion keeps to its code. -/
structure Coded (s : PtzState) : Prop where
  calls : ∀ send, .sending send ∈ s.calls → send.Coded
  motions : ∀ motion ∈ s.motions, motion.Coded

section Codes

variable {send : Send} {answer : Answer}

theorem code_of_mem_cgiTries {reachable : List Int} {t : CgiTry}
    (h : t ∈ send.cgiTries reachable) :
    ∃ direction ∈ send.cgiDirections, t.code ∈ proprietaryDirectionCode direction := by
  simp only [Send.cgiTries, List.mem_flatMap, List.mem_map] at h
  obtain ⟨port, -, channel, -, item, hitem, code, hcode, rfl⟩ := h
  exact ⟨item, hitem, hcode⟩

theorem coded_begin (kind : CallKind) (camera : PtzCamera) : (Send.begin kind camera).Coded := by
  intro _ _ _ _ hpc
  cases hpc

/-- A place is one the CGI is sent asked codes at. -/
def Outcome.Coded (send : Send) : Outcome → Prop
  | .next pc => Send.Coded { send with pc := pc }
  | .done _ => True

theorem coded_discoverStart (onvifPort : Int) : (send.discoverStart onvifPort).Coded send := by
  unfold Send.discoverStart
  split
  · trivial
  · intro _ _ _ _ hpc
    cases hpc

theorem coded_cgiNext (preferred : Bool) (onvifPort : Int) {tries : List CgiTry}
    (h : ∀ t ∈ tries, ∃ direction ∈ send.cgiDirections,
      t.code ∈ proprietaryDirectionCode direction) :
    (send.cgiNext preferred onvifPort tries).Coded send := by
  cases tries with
  | nil =>
    cases preferred with
    | false => trivial
    | true => exact coded_discoverStart onvifPort
  | cons attempt rest =>
    intro _ _ _ _ hpc
    cases hpc
    exact h

theorem coded_cgiPortNext (preferred : Bool) (onvifPort : Int) (reachable ports : List Int) :
    (send.cgiPortNext preferred onvifPort reachable ports).Coded send := by
  cases ports with
  | nil => exact coded_cgiNext preferred onvifPort fun _ => code_of_mem_cgiTries
  | cons port rest =>
    intro _ _ _ _ hpc
    cases hpc

theorem coded_onvifNext (onvifPort : Int) (tries : List OnvifTry) :
    (send.onvifNext onvifPort tries).Coded send := by
  cases tries with
  | nil => exact coded_cgiPortNext false onvifPort [] _
  | cons attempt rest =>
    intro _ _ _ _ hpc
    cases hpc

theorem coded_advance (hcoded : send.Coded) {outcome : Outcome}
    (h : send.advance answer = some outcome) : outcome.Coded send := by
  unfold Send.advance at h
  split at h
  · next port rest reachable _ =>
    rw [← Option.some.inj h]
    split
    · unfold Send.portFound
      split
      · exact coded_cgiPortNext true port [] _
      · exact coded_discoverStart port
    · cases rest with
      | nil => trivial
      | cons port rest =>
        intro _ _ _ _ hpc
        cases hpc
  · rw [← Option.some.inj h]
    exact coded_cgiPortNext _ _ _ _
  · next preferred onvifPort attempt rest given hpc =>
    rw [← Option.some.inj h]
    split
    · trivial
    · refine coded_cgiNext preferred onvifPort ?_
      intro t ht
      exact hcoded preferred onvifPort attempt rest hpc t (List.mem_cons_of_mem _ ht)
  · next onvifPort path rest tokens found _ =>
    rw [← Option.some.inj h]
    cases rest with
    | nil => exact coded_onvifNext onvifPort _
    | cons next rest =>
      intro _ _ _ _ hpc
      cases hpc
  · rw [← Option.some.inj h]
    split
    · trivial
    · split
      · intro _ _ _ _ hpc
        cases hpc
      · exact coded_onvifNext _ _
  · split at h
    · rw [← Option.some.inj h]
      split
      · trivial
      · exact coded_onvifNext _ _
    · cases h
  · cases h

theorem coded_motionsAfter (hcoded : send.Coded) {motions : List Motion}
    (h : ∀ motion ∈ motions, motion.Coded) :
    ∀ motion ∈ send.motionsAfter answer motions, motion.Coded := by
  unfold Send.motionsAfter
  split
  · split
    · unfold Send.effect
      split
      · intro motion hmem
        obtain hold | hnew := List.mem_append.mp hmem
        · exact h motion hold
        · rw [List.mem_singleton.mp hnew]
          intro code hcode
          cases hcode
      · simp
      · next preferred onvifPort attempt rest direction hpc haction =>
        intro motion hmem
        obtain hold | hnew := List.mem_append.mp hmem
        · exact h motion hold
        · obtain ⟨item, hitem, hcode⟩ := hcoded _ _ _ _ hpc attempt List.mem_cons_self
          rw [Send.cgiDirections, haction] at hitem
          rw [List.mem_singleton.mp hnew]
          intro code hsome
          rw [← Option.some.inj hsome, ← List.mem_singleton.mp hitem]
          exact hcode
      · exact fun motion hmem => h motion (List.mem_of_mem_filter hmem)
      · exact h
    · exact h
  · exact h

theorem direction_of_code {code : PtzCode} {d e : Direction}
    (hd : code ∈ proprietaryDirectionCode d) (he : code ∈ proprietaryDirectionCode e) : d = e := by
  cases d <;> cases e <;> simp_all [proprietaryDirectionCode] <;>
    obtain rfl | rfl := hd <;> simp at he

theorem code_unique {code other : PtzCode} {d : Direction} (hzoom : d.isZoom = false)
    (h : code ∈ proprietaryDirectionCode d) (hother : other ∈ proprietaryDirectionCode d) :
    code = other := by
  cases d <;> simp_all [proprietaryDirectionCode, Direction.isZoom]

theorem covers_eq_asked (hcoded : send.Coded) {preferred : Bool} {onvifPort : Int}
    {attempt : CgiTry} {rest : List CgiTry} {direction : Option Direction}
    (hpc : send.pc = .cgi preferred onvifPort attempt rest) (haction : send.action = .stop direction)
    {motion : Motion} (hmotion : motion.Coded) :
    attempt.code.covers motion = asked direction attempt.code motion := by
  cases direction with
  | none => rfl
  | some d =>
    obtain ⟨item, hitem, hcode⟩ := hcoded _ _ _ _ hpc attempt List.mem_cons_self
    rw [Send.cgiDirections, haction] at hitem
    rw [List.mem_singleton.mp hitem] at hcode
    rw [Bool.eq_iff_iff]
    obtain ⟨way, started⟩ := motion
    cases started with
    | none =>
      simp only [PtzCode.covers, asked, decide_eq_true_eq, Option.all_none, Bool.or_true,
        Bool.and_true]
      exact ⟨fun h => direction_of_code h hcode, fun h => h ▸ hcode⟩
    | some code =>
      have hway : code ∈ proprietaryDirectionCode way := hmotion code rfl
      simp only [PtzCode.covers, asked, decide_eq_true_eq, Option.all_some, Bool.and_eq_true,
        Bool.or_eq_true, Bool.not_eq_true']
      constructor
      · intro h
        subst h
        exact ⟨direction_of_code hway hcode, .inr rfl⟩
      · rintro ⟨rfl, hzoom | h⟩
        · exact code_unique hzoom hcode hway
        · exact h.symm

/-- **A stop stops what it was asked for**: where the guard has the camera still, it is. -/
theorem stills_eq (hcoded : send.Coded) {motions : List Motion}
    (h : ∀ motion ∈ motions, motion.Coded)
    (hend : send.pc.isLast = true ∨ send.cgiStopped answer = true) :
    send.stills answer motions = (send.motionsAfter answer motions).isEmpty := by
  cases hpc : send.pc with
  | findPort port rest => cases answer <;> simp [Send.stills, Send.motionsAfter, Send.effect, hpc]
  | cgiPort preferred onvifPort port rest reachable =>
    cases answer <;> simp [Send.stills, Send.motionsAfter, Send.effect, hpc]
  | discover onvifPort path rest tokens => simp [hpc, SendPc.isLast, Send.cgiStopped] at hend
  | onvif onvifPort attempt rest => simp [hpc, SendPc.isLast, Send.cgiStopped] at hend
  | relative onvifPort attempt rest => simp [hpc, SendPc.isLast, Send.cgiStopped] at hend
  | cgi preferred onvifPort attempt rest =>
    cases answer with
    | port reachable => simp [Send.stills, Send.motionsAfter, hpc]
    | profiles tokens => simp [Send.stills, Send.motionsAfter, hpc]
    | slept => simp [Send.stills, Send.motionsAfter, hpc]
    | command given =>
      cases haction : send.action with
      | start direction =>
        cases htaken : given.taken <;>
          simp [Send.stills, Send.motionsAfter, Send.effect, hpc, haction, htaken]
      | stop direction =>
        cases htaken : given.taken with
        | false => simp [Send.stills, Send.motionsAfter, hpc, haction, htaken]
        | true =>
          have hcovers : ∀ motion ∈ motions,
              attempt.code.covers motion = asked direction attempt.code motion :=
            fun motion hmem => covers_eq_asked hcoded hpc haction (h motion hmem)
          rw [Bool.eq_iff_iff]
          simp only [Send.stills, Send.motionsAfter, Send.effect, hpc, haction, htaken, if_true,
            List.all_eq_true, List.isEmpty_iff, List.filter_eq_nil_iff, Bool.not_eq_true',
            Bool.not_eq_false]
          exact forall₂_congr fun motion hmem => by rw [hcovers motion hmem]

end Codes

theorem coded_endCall {s : PtzState} (hs : Coded s) (i : Nat) : Coded (s.endCall i) :=
  ⟨fun send hmem => hs.calls send (List.mem_of_mem_eraseIdx hmem), hs.motions⟩

theorem coded_concat {s t : PtzState} (hs : Coded s) {kind : CallKind} {camera : PtzCamera}
    (hcalls : t.calls = s.calls ++ [.sending (.begin kind camera)]) (hmotions : t.motions = s.motions) :
    Coded t := by
  constructor
  · intro send hmem
    rw [hcalls] at hmem
    obtain hold | hnew := List.mem_append.mp hmem
    · exact hs.calls send hold
    · cases List.mem_singleton.mp hnew
      exact coded_begin kind camera
  · rw [hmotions]
    exact hs.motions

theorem coded_set {s t : PtzState} (hs : Coded s) {i : Nat} {call : Call}
    (hcall : ∀ send, call = .sending send → send.Coded) (hcalls : t.calls = s.calls.set i call)
    (hmotions : ∀ motion ∈ t.motions, motion.Coded) : Coded t := by
  refine ⟨?_, hmotions⟩
  intro send hmem
  rw [hcalls] at hmem
  obtain hold | hnew := List.mem_or_eq_of_mem_set hmem
  · exact hs.calls send hold
  · exact hcall send hnew.symm

theorem coded_finish {s : PtzState} (hs : Coded s) (i : Nat) (send : Send) (ok : Bool) :
    Coded (s.finish i send ok) := by
  have hend := coded_endCall hs i
  unfold PtzState.finish
  split
  · split
    · exact ⟨hend.calls, hend.motions⟩
    · exact hend
  · split
    · next direction _ _ =>
      have hsleeping : ∀ other, Call.sleeping direction send.camera = .sending other → other.Coded :=
        fun _ h => nomatch h
      exact coded_set hs hsleeping rfl hs.motions
    · exact hend
  all_goals exact hend

theorem coded_step {s t : PtzState} {label : Label} (hs : Coded s) (h : s.step label = some t) :
    Coded t := by
  cases label with
  | begin request camera =>
    rw [← Option.some.inj h]
    cases request <;> exact coded_concat hs rfl rfl
  | expire direction =>
    obtain ⟨camera, -, rfl⟩ := Option.map_eq_some_iff.mp h
    exact coded_concat hs rfl rfl
  | answer i answer =>
    simp only [PtzState.step] at h
    split at h
    · cases h
    · next send hcall =>
      obtain ⟨outcome, houtcome, rfl⟩ := Option.map_eq_some_iff.mp h
      have hsend := hs.calls send (List.mem_of_getElem? hcall)
      have hmotions : ∀ motion ∈ send.motionsAfter answer s.motions, motion.Coded :=
        coded_motionsAfter hsend hs.motions
      cases outcome with
      | next pc =>
        refine coded_set hs ?_ rfl hmotions
        rintro _ ⟨⟩
        exact coded_advance hsend houtcome
      | done ok =>
        exact coded_finish (s := { s with motions := send.motionsAfter answer s.motions })
          ⟨hs.calls, hmotions⟩ i send ok
    · next direction camera hcall =>
      split at h
      · rw [← Option.some.inj h]
        refine coded_set hs ?_ rfl hs.motions
        rintro _ ⟨⟩
        exact coded_begin _ camera
      · cases h

/-! ## Ends of a command -/

section Ends

variable {send : Send} {answer : Answer}

theorem discoverStart_ne (send : Send) (onvifPort : Int) (ok : Bool) :
    send.discoverStart onvifPort ≠ .done ok := by
  unfold Send.discoverStart
  split
  · next hnil => exact absurd hnil (candidatePaths_ne_nil _)
  · simp

theorem cgiNext_done {preferred : Bool} {onvifPort : Int} {tries : List CgiTry} {ok : Bool}
    (h : send.cgiNext preferred onvifPort tries = .done ok) :
    tries = [] ∧ preferred = false ∧ ok = false := by
  cases tries with
  | nil =>
    cases preferred with
    | false => exact ⟨rfl, rfl, (Outcome.done.inj h).symm⟩
    | true => exact absurd h (discoverStart_ne _ _ _)
  | cons attempt rest => cases h

theorem cgiPortNext_done {preferred : Bool} {onvifPort : Int} {reachable ports : List Int}
    {ok : Bool} (h : send.cgiPortNext preferred onvifPort reachable ports = .done ok) :
    ports = [] ∧ reachable = [] ∧ preferred = false ∧ ok = false := by
  cases ports with
  | nil =>
    obtain ⟨htries, hpreferred, hok⟩ := cgiNext_done h
    refine ⟨rfl, ?_, hpreferred, hok⟩
    by_contra hne
    exact cgiTries_ne_nil send hne htries
  | cons port rest => cases h

theorem cgiStart_ne (send : Send) (preferred : Bool) (onvifPort : Int) (ok : Bool) :
    send.cgiStart preferred onvifPort ≠ .done ok :=
  fun h => proprietaryPorts_ne_nil _ (cgiPortNext_done h).1

theorem onvifNext_ne (send : Send) (onvifPort : Int) (tries : List OnvifTry) (ok : Bool) :
    send.onvifNext onvifPort tries ≠ .done ok := by
  cases tries with
  | nil => exact cgiStart_ne send false onvifPort ok
  | cons attempt rest => simp [Send.onvifNext]

/-- **What a command returns ok for**: an answer of the CGI that is read so, or an accepted
ONVIF command; a relative one is a start. -/
theorem advance_done_true (h : send.advance answer = some (.done true)) : ∃ given,
    answer = .command given ∧
      ((∃ preferred onvifPort attempt rest, send.pc = .cgi preferred onvifPort attempt rest ∧
          given.cgiOk = true) ∨
        (∃ onvifPort attempt rest, send.pc = .onvif onvifPort attempt rest ∧ given = .accepted) ∨
        ∃ direction, send.action = .start direction) := by
  have hsoap (given : CommandAnswer) : given.soapOk = true → given = .accepted := by
    cases given <;> simp [CommandAnswer.soapOk]
  unfold Send.advance at h
  split at h
  · next port rest reachable hpc =>
    rw [Option.some.injEq] at h
    split at h
    · unfold Send.portFound at h
      split at h
      · exact absurd h (cgiStart_ne _ _ _ _)
      · exact absurd h (discoverStart_ne _ _ _)
    · unfold Send.findPortNext at h
      split at h <;> cases h
  · rw [Option.some.injEq] at h
    cases (cgiPortNext_done h).2.2.2
  · next preferred onvifPort attempt rest given hpc =>
    rw [Option.some.injEq] at h
    split at h
    · next hok => exact ⟨given, rfl, .inl ⟨preferred, onvifPort, attempt, rest, hpc, hok⟩⟩
    · cases (cgiNext_done h).2.2
  · next onvifPort path rest tokens found hpc =>
    rw [Option.some.injEq] at h
    cases rest with
    | nil => exact absurd h (onvifNext_ne _ _ _ _)
    | cons next rest => cases h
  · next onvifPort attempt rest given hpc =>
    rw [Option.some.injEq] at h
    split at h
    · next hok => exact ⟨given, rfl, .inr (.inl ⟨onvifPort, attempt, rest, hpc, hsoap given hok⟩)⟩
    · split at h
      · cases h
      · exact absurd h (onvifNext_ne _ _ _ _)
  · next onvifPort attempt rest given hpc =>
    split at h
    · next direction hstart => exact ⟨given, rfl, .inr (.inr ⟨direction, hstart⟩)⟩
    · cases h
  · cases h

/-- **A call ends without success** where the last thing it has to try comes to nothing. -/
theorem advance_done_false (h : send.advance answer = some (.done false)) :
    (send.pc.isLast && answer.isNegative) = true := by
  unfold Send.advance at h
  split at h
  · next port rest reachable hpc =>
    rw [Option.some.injEq] at h
    split at h
    · unfold Send.portFound at h
      split at h
      · exact absurd h (cgiStart_ne _ _ _ _)
      · exact absurd h (discoverStart_ne _ _ _)
    · next hsilent =>
      cases rest with
      | nil => simp [hpc, SendPc.isLast, Answer.isNegative, hsilent]
      | cons port rest => cases h
  · next preferred onvifPort port rest reached reachable hpc =>
    rw [Option.some.injEq] at h
    obtain ⟨hrest, hreached, hpreferred, -⟩ := cgiPortNext_done h
    cases reachable with
    | false =>
      obtain rfl : reached = [] := hreached
      simp [hpc, hrest, hpreferred, SendPc.isLast, Answer.isNegative]
    | true => simp at hreached
  · next preferred onvifPort attempt rest given hpc =>
    rw [Option.some.injEq] at h
    split at h
    · cases h
    · next hok =>
      obtain ⟨hrest, hpreferred, -⟩ := cgiNext_done h
      simp [hpc, hrest, hpreferred, SendPc.isLast, Answer.isNegative, hok]
  · next onvifPort path rest tokens found hpc =>
    rw [Option.some.injEq] at h
    cases rest with
    | nil => exact absurd h (onvifNext_ne _ _ _ _)
    | cons next rest => cases h
  · rw [Option.some.injEq] at h
    split at h
    · cases h
    · split at h
      · cases h
      · exact absurd h (onvifNext_ne _ _ _ _)
  · split at h
    · rw [Option.some.injEq] at h
      split at h
      · cases h
      · exact absurd h (onvifNext_ne _ _ _ _)
    · cases h
  · cases h

theorem advance_of_last (h : (send.pc.isLast && answer.isNegative) = true) {outcome : Outcome}
    (hs : send.advance answer = some outcome) : outcome = .done false := by
  rw [Bool.and_eq_true] at h
  obtain ⟨hlast, hnegative⟩ := h
  cases answer with
  | profiles tokens => cases hnegative
  | slept => cases hnegative
  | port reachable =>
    obtain rfl : reachable = false := by simpa [Answer.isNegative] using hnegative
    unfold SendPc.isLast at hlast
    split at hlast
    · next hpc => simp_all [Send.advance, Send.findPortNext]
    · next hpc =>
      simp_all [Send.advance, Send.cgiPortNext, Send.cgiTries, Send.cgiNext, Send.cgiFailed]
    · next hpc => simp_all [Send.advance]
    · cases hlast
  | command given =>
    have hok : given.cgiOk = false := by simpa [Answer.isNegative] using hnegative
    unfold SendPc.isLast at hlast
    split at hlast
    · next hpc => simp_all [Send.advance]
    · next hpc => simp_all [Send.advance]
    · next hpc => simp_all [Send.advance, Send.cgiNext, Send.cgiFailed]
    · cases hlast

theorem advance_of_cgiStopped (h : send.cgiStopped answer = true) :
    send.advance answer = some (.done true) := by
  unfold Send.cgiStopped at h
  split at h
  · next preferred onvifPort attempt rest direction given hpc haction =>
    simp only [Send.advance, hpc, h, if_true]
  · cases h

theorem not_cgiStopped_of_start {direction : Direction} (h : send.action = .start direction) :
    send.cgiStopped answer = false := by
  simp [Send.cgiStopped, h]

/-- A stop that was answered ok was the CGI's, or has turned every motion off. -/
theorem stop_answered {direction : Option Direction} (hstop : send.action = .stop direction)
    (h : send.advance answer = some (.done true)) (motions : List Motion) :
    send.cgiStopped answer = true ∨ send.motionsAfter answer motions = [] := by
  obtain ⟨given, rfl, ⟨preferred, onvifPort, attempt, rest, hpc, hok⟩ |
    ⟨onvifPort, attempt, rest, hpc, rfl⟩ | ⟨d, hstart⟩⟩ := advance_done_true h
  · refine .inl ?_
    simp [Send.cgiStopped, hpc, hstop, hok]
  · refine .inr ?_
    simp [Send.motionsAfter, CommandAnswer.taken, Send.effect, hpc, hstop]
  · rw [hstop] at hstart
    cases hstart

end Ends

/-! ## Steps -/

section Steps

variable {s t : PtzState}

theorem attended_of_calls (h : s.calls ≠ []) : Attended s :=
  (attended_iff_calls s).mpr (.inr (.inr h))

theorem attended_of_watchdogs (h : s.watchdogs ≠ []) : Attended s :=
  (attended_iff_calls s).mpr (.inr (.inl h))

theorem schedule_ne_nil (watchdogs : Watchdogs) (camera : PtzCamera) (direction : Direction) :
    scheduleMoveWatchdog watchdogs camera direction ≠ [] := by
  unfold scheduleMoveWatchdog
  cases clearMoveWatchdog watchdogs (some direction) with
  | nil => simp [JsMap.set]
  | cons entry rest =>
    rw [JsMap.set]
    split <;> simp

theorem attended_set {i : Nat} {call next : Call} (hcall : s.calls[i]? = some call)
    (ht : t.calls = s.calls.set i next) : Attended t := by
  refine attended_of_calls ?_
  rw [ht]
  intro hnil
  rw [List.set_eq_nil_iff] at hnil
  rw [hnil] at hcall
  cases hcall

theorem attended_endCall (i : Nat) (motions : List Motion) :
    Attended (PtzState.endCall { s with motions := motions } i) ↔
      (motions.isEmpty || s.others i) = true := by
  rw [attended_iff_calls]
  simp [PtzState.endCall, PtzState.others]

theorem attended_done {i : Nat} {send : Send} {answer : Answer} {ok : Bool} (hs : Coded s)
    (hcall : s.calls[i]? = some (.sending send)) (h : send.advance answer = some (.done ok)) :
    Attended (PtzState.finish { s with motions := send.motionsAfter answer s.motions } i send ok) ↔
      (!(send.pc.isLast && answer.isNegative || send.cgiStopped answer) ||
        send.stills answer s.motions || s.others i) = true := by
  have hsend := hs.calls send (List.mem_of_getElem? hcall)
  cases ok with
  | false =>
    have hlast := advance_done_false h
    have hend : PtzState.finish { s with motions := send.motionsAfter answer s.motions } i send false =
        PtzState.endCall { s with motions := send.motionsAfter answer s.motions } i := by
      unfold PtzState.finish
      split <;> rfl
    rw [hend, attended_endCall, hlast,
      stills_eq hsend hs.motions (.inl (Bool.and_eq_true_iff.mp hlast).1)]
    simp
  | true =>
    have hlast : (send.pc.isLast && answer.isNegative) = false := by
      rw [← Bool.not_eq_true]
      intro hlast
      cases advance_of_last hlast h
    rw [hlast, Bool.false_or]
    have hstop (direction : Option Direction) (haction : send.action = .stop direction) :
        Attended (PtzState.endCall { s with motions := send.motionsAfter answer s.motions } i) ↔
          (!send.cgiStopped answer || send.stills answer s.motions || s.others i) = true := by
      rw [attended_endCall]
      by_cases hcgi : send.cgiStopped answer = true
      · rw [hcgi, stills_eq hsend hs.motions (.inr hcgi)]
        simp
      · obtain hoff := (stop_answered haction h s.motions).resolve_left hcgi
        simp [hcgi, hoff]
    have hstart (direction : Direction) (haction : send.action = .start direction) :
        (!send.cgiStopped answer || send.stills answer s.motions || s.others i) = true := by
      rw [not_cgiStopped_of_start haction]
      rfl
    unfold PtzState.finish
    cases hkind : send.kind with
    | move direction =>
      exact iff_of_true (attended_of_watchdogs (schedule_ne_nil _ _ _))
        (hstart direction (by rw [Send.action, hkind]; rfl))
    | step direction =>
      exact iff_of_true (attended_of_watchdogs (schedule_ne_nil _ _ _))
        (hstart direction (by rw [Send.action, hkind]; rfl))
    | stepStop direction => exact hstop (some direction) (by rw [Send.action, hkind]; rfl)
    | stop direction => exact hstop direction (by rw [Send.action, hkind]; rfl)
    | watchdog direction => exact hstop (some direction) (by rw [Send.action, hkind]; rfl)

/-- **The guard is exact**: after a step the camera is attended iff the step met it. -/
theorem attended_iff (hcoded : Coded s) {label : Label} (hs : s.step label = some t) :
    Attended t ↔ keepsSwitch s label = true := by
  cases label with
  | begin request camera =>
    refine iff_of_true (attended_of_calls ?_) rfl
    rw [← Option.some.inj hs]
    cases request <;> simp [PtzState.start]
  | expire direction =>
    refine iff_of_true (attended_of_calls ?_) rfl
    obtain ⟨camera, -, rfl⟩ := Option.map_eq_some_iff.mp hs
    simp
  | answer i answer =>
    simp only [PtzState.step, keepsSwitch] at hs ⊢
    cases hcall : s.calls[i]? with
    | none =>
      rw [hcall] at hs
      cases hs
    | some call =>
      rw [hcall] at hs
      cases call with
      | sleeping direction camera =>
        simp only at hs
        split at hs
        · obtain rfl := Option.some.inj hs
          exact iff_of_true (attended_set hcall rfl) rfl
        · cases hs
      | sending send =>
        obtain ⟨outcome, houtcome, rfl⟩ := Option.map_eq_some_iff.mp hs
        cases outcome with
        | done ok => exact attended_done hcoded hcall houtcome
        | next pc =>
          refine iff_of_true (attended_set hcall rfl) ?_
          have hlast : (send.pc.isLast && answer.isNegative) = false := by
            rw [← Bool.not_eq_true]
            intro hlast
            cases advance_of_last hlast houtcome
          have hcgi : send.cgiStopped answer = false := by
            rw [← Bool.not_eq_true]
            intro hstopped
            rw [advance_of_cgiStopped hstopped] at houtcome
            cases houtcome
          simp [hlast, hcgi]

end Steps

/-- **The dead man's switch.** In every state of a run whose steps meet the guard, a motion
that is on has a watchdog pending or a call that still sends; and where `stop` answers ok, a
motion that is left has. -/
theorem dead_mans_switch {s : PtzState}
    (h : Reach ptzMachine (fun s label => keepsSwitch s label = true) s) :
    Attended s ∧ ∀ label t, keepsSwitch s label = true → s.step label = some t →
      s.stopAnswer label = some true → Attended t := by
  have hboth : Coded s ∧ Attended s := by
    refine h.invariant (I := fun s => Coded s ∧ Attended s) ?_ ?_
    · rintro s rfl
      exact ⟨⟨by simp, by simp⟩, fun hmoving => absurd rfl hmoving⟩
    · intro s label t hs hguard hstep
      exact ⟨coded_step hs.1 hstep, (attended_iff hs.1 hstep).mpr hguard⟩
  refine ⟨hboth.2, ?_⟩
  intro label t hguard hstep _
  exact (attended_iff hboth.1 hstep).mpr hguard

/-! A camera of the make whose CGI is tried first, at its own port alone. -/

def cgiCamera : PtzCamera where
  onvifPort := some 80
  onvifPath := none
  onvifProfileToken := none
  channel := 1
  rtspPath := some "/cam/realmonitor?channel=1&subtype=0"
  port_valid := by decide

/-- A request whose first command of the CGI is accepted, up to that answer. -/
def cgiRequest (request : Request) : List Label :=
  .begin request cgiCamera :: [true, true, false, false, false, false].map (.answer 0 <| .port ·)

def cgiAccepted : Label := .answer 0 (.command .accepted)

theorem dead_mans_switch_moving : ∃ s,
    Reach ptzMachine (fun s label => keepsSwitch s label = true) s ∧ s.motions = [⟨.left, some .left⟩] ∧
      (Attended s ∧ ∀ label t, keepsSwitch s label = true → s.step label = some t →
        s.stopAnswer label = some true → Attended t) := by
  have hrun : (ptzMachine.run keepsSwitch ⟨[], [], []⟩
      (cgiRequest (.move .left) ++ [cgiAccepted])).any
        (fun s => decide (s.motions = [⟨.left, some .left⟩])) = true := by rfl
  cases hs : ptzMachine.run keepsSwitch ⟨[], [], []⟩ (cgiRequest (.move .left) ++ [cgiAccepted]) with
  | none =>
    rw [hs] at hrun
    cases hrun
  | some s =>
    rw [hs, Option.any_some, decide_eq_true_eq] at hrun
    have hreach : Reach ptzMachine (fun s label => keepsSwitch s label = true) s :=
      ⟨⟨[], [], []⟩, rfl, path_of_run (fun _ _ h => h) _ hs⟩
    exact ⟨s, hreach, hrun, dead_mans_switch hreach⟩

/-- A stop without a direction names `Up` first: accepted, it answers ok, and the camera
turns left without a watchdog or a call. -/
theorem stop_leaves_turning : ¬ ∀ s, Reach ptzMachine Always s →
    Attended s ∧ ∀ label t, s.step label = some t → s.stopAnswer label = some true →
      Attended t := by
  intro hall
  have hrun : (ptzMachine.run anyStep ⟨[], [], []⟩
      (cgiRequest (.move .left) ++ cgiAccepted :: cgiRequest (.stop none))).any
        (fun s => decide (s.stopAnswer cgiAccepted = some true) &&
          (s.step cgiAccepted).any (fun t => decide (t = ⟨[], [], [⟨.left, some .left⟩]⟩))) =
      true := by rfl
  cases hs : ptzMachine.run anyStep ⟨[], [], []⟩
      (cgiRequest (.move .left) ++ cgiAccepted :: cgiRequest (.stop none)) with
  | none =>
    rw [hs] at hrun
    cases hrun
  | some s =>
    rw [hs, Option.any_some, Bool.and_eq_true, decide_eq_true_eq] at hrun
    cases ht : s.step cgiAccepted with
    | none =>
      rw [ht] at hrun
      cases hrun.2
    | some t =>
      rw [ht, Option.any_some, decide_eq_true_eq] at hrun
      have hreach : Reach ptzMachine Always s :=
        ⟨⟨[], [], []⟩, rfl, path_of_run (fun _ _ _ => trivial) _ hs⟩
      have hattended := (attended_iff_calls t).mp ((hall s hreach).2 cgiAccepted t ht hrun.1)
      rw [hrun.2] at hattended
      simp at hattended

end Drac.Ptz
