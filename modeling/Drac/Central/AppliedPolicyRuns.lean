import Drac.Central.AppliedPolicy

/-
  Applied means enforced.

  The installation reports a revision as applied although a `stopAll` failed, for the
  enforcement only logs its errors, and an edit of the license changes the restrictions
  under the same revision. `Kept` excludes both where they matter: a `stopAll` fails only
  for an answer already superseded or already enforced, and the license changes the
  restrictions only while nothing says, or is about to say, that the current revision is
  applied. In every run whose steps meet it, what the Central shows as applied is enforced
  (`applied_is_enforced`).

  A claim is a revision with a status: what is persisted, what is on its way, what the
  Central shows. Revisions only grow, so a claim on the current one was made by an answer
  with the current restrictions; `inHand` carries this over the phases of an answer.
-/

namespace Drac.Central.AppliedPolicy

open Runs

/-! ## The property and the condition -/

def System.wanted (s : System) : Restrictions := (licenseResponse s.item).restrictions

/-- Where the Central shows its current revision as applied, its restrictions are those last
enforced. -/
def AppliedIsEnforced (s : System) : Prop :=
  showsApplied s.item → s.lastEnforced = some s.wanted

/-- The revisions claimed: persisted, shown, and on their way. -/
def System.claims (s : System) : List ConfigState :=
  s.settings :: s.item.reported :: s.network.map (·.configState)

def Phase.response : Phase → Option Response
  | .answered r | .stoppingRecording r | .stoppingAi r _ | .recording r .applied => some r
  | _ => none

/-- The current revision is claimed as applied, or may yet be. -/
def System.outstanding (s : System) : Bool :=
  s.claims.any (fun claim => claim = ⟨s.item.configRevision, .applied⟩) ||
    s.phase.response.any (fun r => r.configRevision = s.item.configRevision)

/-- The answer in hand is superseded, or asks for what was last enforced. -/
def System.mayFail (s : System) : Bool :=
  s.phase.response.all fun r =>
    r.configRevision ≠ s.item.configRevision || s.lastEnforced = some r.enforced

/-- A status that changes what is forbidden is set while nothing is outstanding, and a
`stopAll` fails only where that does no harm. -/
def kept (s : System) : Label → Bool
  | .patchLicense status =>
    !s.outstanding ||
      (licenseResponse (handlePatchLicense status s.item)).restrictions = s.wanted
  | .recordingStopped ok | .aiStopped ok => ok || s.mayFail
  | _ => true

def Kept (s : System) (a : Label) : Prop := kept s a = true

/-! ## The invariant -/

/-- A claim is of no later revision, and one on the current revision is true. -/
structure Holds (s : System) (claim : ConfigState) : Prop where
  le : claim.appliedRevision ≤ s.item.configRevision
  enforced : claim = ⟨s.item.configRevision, .applied⟩ → s.lastEnforced = some s.wanted

theorem Holds.congr {s t : System} {claim : ConfigState} (h : Holds s claim)
    (hrevision : t.item.configRevision = s.item.configRevision) (hwanted : t.wanted = s.wanted)
    (hlast : t.lastEnforced = s.lastEnforced) : Holds t claim := by
  constructor
  · rw [hrevision]
    exact h.le
  · rw [hrevision, hwanted, hlast]
    exact h.enforced

/-- An answer in hand is of no later revision; of the current one, it asks for what the Central
asks for now; and no claim is later than it. -/
structure InHand (s : System) (r : Response) : Prop where
  le : r.configRevision ≤ s.item.configRevision
  current : r.configRevision = s.item.configRevision → r.enforced = s.wanted
  claims : ∀ claim ∈ s.claims, claim.appliedRevision ≤ r.configRevision

/-- What is claimed of a revision is true of it, on every side. -/
structure Honest (s : System) : Prop where
  claims : ∀ claim ∈ s.claims, Holds s claim
  inHand : ∀ r, s.phase.response = some r → InHand s r
  stopping : ∀ r clean, s.phase = .stoppingAi r clean →
    r.configRevision = s.item.configRevision →
    clean = true ∨ s.lastEnforced = some r.enforced
  recording : ∀ r, s.phase = .recording r .applied →
    r.configRevision = s.item.configRevision → s.lastEnforced = some r.enforced

variable {s : System}

theorem Honest.applied (h : Honest s) : AppliedIsEnforced s := by
  intro hshows
  have hmem : s.item.reported ∈ s.claims := List.mem_cons_of_mem _ List.mem_cons_self
  exact (h.claims _ hmem).enforced hshows

theorem newSystem_honest (item : Item) : Honest (newSystem item) := by
  constructor
  · intro claim hclaim
    have heq : claim = ⟨0, .unknown⟩ := by
      simpa [System.claims, newSystem] using hclaim
    rw [heq]
    exact ⟨Nat.zero_le _, fun hstatus => nomatch congrArg ConfigState.applyStatus hstatus⟩
  · exact fun _ h => nomatch h
  · exact fun _ _ h => nomatch h
  · exact fun _ h => nomatch h

/-! ## Edits -/

theorem Honest.bump (h : Honest s) {item : Item}
    (hrevision : item.configRevision = s.item.configRevision + 1)
    (hreported : item.reported = s.item.reported) :
    Honest { s with item := item } := by
  have hclaims : System.claims { s with item := item } = s.claims := by
    unfold System.claims
    rw [hreported]
  have hsuperseded : ∀ r, s.phase.response = some r →
      r.configRevision < item.configRevision := by
    intro r hr
    have hle := (h.inHand r hr).le
    omega
  constructor
  · intro claim hclaim
    rw [hclaims] at hclaim
    have hle := (h.claims claim hclaim).le
    constructor
    · show claim.appliedRevision ≤ item.configRevision
      omega
    · intro heq
      have hrev : claim.appliedRevision = item.configRevision :=
        congrArg ConfigState.appliedRevision heq
      omega
  · intro r hr
    have hlt := hsuperseded r hr
    refine ⟨Nat.le_of_lt hlt, fun heq => absurd heq (Nat.ne_of_lt hlt), ?_⟩
    rw [hclaims]
    exact (h.inHand r hr).claims
  · intro r clean hphase heq
    have hr : s.phase.response = some r := by
      rw [show s.phase = .stoppingAi r clean from hphase]
      rfl
    exact absurd heq (Nat.ne_of_lt (hsuperseded r hr))
  · intro r hphase heq
    have hr : s.phase.response = some r := by
      rw [show s.phase = .recording r .applied from hphase]
      rfl
    exact absurd heq (Nat.ne_of_lt (hsuperseded r hr))

/-- The license changes no restrictions, or nothing is said of the current revision. -/
theorem Honest.patchLicense (h : Honest s) (status : LicenseStatus)
    (hguard : Kept s (.patchLicense status)) :
    Honest { s with item := handlePatchLicense status s.item } := by
  have hcases : s.outstanding = false ∨
      (licenseResponse (handlePatchLicense status s.item)).restrictions = s.wanted := by
    simpa [Kept, kept] using hguard
  cases hcases with
  | inl hnone =>
    simp only [System.outstanding, Bool.or_eq_false_iff, List.any_eq_false,
      decide_eq_true_eq] at hnone
    obtain ⟨hclaims, hresponse⟩ := hnone
    refine ⟨?_, ?_, h.stopping, h.recording⟩
    · intro claim hclaim
      exact ⟨(h.claims claim hclaim).le, fun heq => absurd heq (hclaims claim hclaim)⟩
    · intro r hr
      refine ⟨(h.inHand r hr).le, ?_, (h.inHand r hr).claims⟩
      intro heq
      have hne : r.configRevision ≠ s.item.configRevision := by
        change s.phase.response = some r at hr
        rw [hr, Option.any_some] at hresponse
        exact of_decide_eq_false hresponse
      exact absurd heq hne
  | inr hsame =>
    have hwanted : System.wanted { s with item := handlePatchLicense status s.item } =
        s.wanted := hsame
    refine ⟨?_, ?_, h.stopping, h.recording⟩
    · exact fun claim hclaim => (h.claims claim hclaim).congr rfl hwanted rfl
    · intro r hr
      refine ⟨(h.inHand r hr).le, ?_, (h.inHand r hr).claims⟩
      rw [hwanted]
      exact (h.inHand r hr).current

/-! ## Heartbeats -/

theorem Honest.setPhase (h : Honest s) {phase : Phase}
    (hphase : phase.response = none) : Honest { s with phase := phase } := by
  constructor
  · exact fun claim hclaim => (h.claims claim hclaim).congr rfl rfl rfl
  · intro r hr
    change phase.response = some r at hr
    rw [hphase] at hr
    cases hr
  · intro r clean heq
    rw [show phase = .stoppingAi r clean from heq] at hphase
    cases hphase
  · intro r heq
    rw [show phase = .recording r .applied from heq] at hphase
    cases hphase

theorem Honest.send (h : Honest s) (readOk : Bool) :
    Honest { s with
      network := s.network ++ [⟨s.sent, collectPayload readOk s.settings⟩]
      sent := s.sent + 1
      phase := .awaiting s.sent } := by
  have hpayload : Holds s (collectPayload readOk s.settings) := by
    unfold collectPayload
    split
    · exact h.claims _ List.mem_cons_self
    · exact ⟨Nat.zero_le _, fun hstatus => nomatch congrArg ConfigState.applyStatus hstatus⟩
  constructor
  · intro claim hclaim
    simp only [System.claims, List.map_append, List.map_singleton, List.mem_cons,
      List.mem_append, List.not_mem_nil, or_false] at hclaim
    have hold : Holds s claim := by
      rcases hclaim with hsettings | hreported | hnetwork | hnew
      · exact h.claims claim (by rw [hsettings]; exact List.mem_cons_self)
      · exact h.claims claim
          (by rw [hreported]; exact List.mem_cons_of_mem _ List.mem_cons_self)
      · exact h.claims claim (List.mem_cons_of_mem _ (List.mem_cons_of_mem _ hnetwork))
      · rw [hnew]
        exact hpayload
    exact hold.congr rfl rfl rfl
  · exact fun _ hr => nomatch hr
  · exact fun _ _ heq => nomatch heq
  · exact fun _ heq => nomatch heq

theorem Honest.deliver (h : Honest s) {k : Nat} {beat : Heartbeat}
    (hget : s.network[k]? = some beat) : Honest (deliver beat k s) := by
  have hmem : beat.configState ∈ s.claims :=
    List.mem_cons_of_mem _ (List.mem_cons_of_mem _
      (List.mem_map_of_mem (List.mem_of_getElem? hget)))
  have hclaims : ∀ claim ∈ (AppliedPolicy.deliver beat k s).claims, claim ∈ s.claims := by
    intro claim hclaim
    simp only [System.claims, AppliedPolicy.deliver, handleHeartbeat, List.mem_cons] at hclaim
    rcases hclaim with hsettings | hreported | hnetwork
    · exact hsettings ▸ List.mem_cons_self
    · exact hreported ▸ hmem
    · obtain ⟨b, hb, rfl⟩ := List.mem_map.mp hnetwork
      exact List.mem_cons_of_mem _ (List.mem_cons_of_mem _
        (List.mem_map_of_mem (List.mem_of_mem_eraseIdx hb)))
  have hholds : ∀ claim ∈ (AppliedPolicy.deliver beat k s).claims,
      Holds (AppliedPolicy.deliver beat k s) claim := by
    exact fun claim hclaim => (h.claims claim (hclaims claim hclaim)).congr rfl rfl rfl
  by_cases hawaited : s.phase = .awaiting beat.number
  · have hphase : (AppliedPolicy.deliver beat k s).phase =
        .answered (licenseResponse { s.item with reported := beat.configState }) :=
      if_pos hawaited
    refine ⟨hholds, ?_, ?_, ?_⟩
    · intro r hr
      rw [hphase, Phase.response, Option.some.injEq] at hr
      subst hr
      refine ⟨Nat.le_refl _, fun _ => ?_, fun claim hclaim => (hholds claim hclaim).le⟩
      exact applyStatusCaps_licenseResponse _
    · intro r clean heq
      rw [hphase] at heq
      cases heq
    · intro r heq
      rw [hphase] at heq
      cases heq
  · have hphase : (AppliedPolicy.deliver beat k s).phase = s.phase := if_neg hawaited
    refine ⟨hholds, ?_, ?_, ?_⟩
    · intro r hr
      rw [hphase] at hr
      obtain ⟨hle, hcurrent, hbound⟩ := h.inHand r hr
      exact ⟨hle, hcurrent, fun claim hclaim => hbound claim (hclaims claim hclaim)⟩
    · intro r clean heq
      rw [hphase] at heq
      exact h.stopping r clean heq
    · intro r heq
      rw [hphase] at heq
      exact h.recording r heq

/-! ## Applying an answer -/

/-- What was enforced of an answer of the current revision so far, whether it is all of it or
was enforced before. -/
def SoFar (s : System) (r : Response) (clean : Bool) : Prop :=
  r.configRevision = s.item.configRevision →
    clean = true ∨ s.lastEnforced = some r.enforced

variable {r : Response}

theorem SoFar.and {clean ok : Bool} (h : SoFar s r clean)
    (hr : s.phase.response = some r) (hguard : (ok || s.mayFail) = true) :
    SoFar s r (clean && ok) := by
  intro heq
  cases h heq with
  | inr hlast => exact Or.inr hlast
  | inl hclean =>
    cases ok with
    | true => exact Or.inl (by rw [hclean]; rfl)
    | false =>
      have hmay : s.mayFail = true := hguard
      rw [System.mayFail, hr, Option.all_some, Bool.or_eq_true] at hmay
      cases hmay with
      | inl hne => exact absurd heq (of_decide_eq_true hne)
      | inr hlast => exact Or.inr (of_decide_eq_true hlast)

variable {clean : Bool}

theorem Honest.enforced (h : Honest s)
    (hr : s.phase.response = some r) (hsoFar : SoFar s r clean) :
    Honest (enforced r clean s) := by
  obtain ⟨hle, hcurrent, hbound⟩ := h.inHand r hr
  have hlast : r.configRevision = s.item.configRevision →
      (AppliedPolicy.enforced r clean s).lastEnforced = some r.enforced := by
    intro hrevision
    show (if clean = true then some r.enforced else s.lastEnforced) = some r.enforced
    cases hsoFar hrevision with
    | inl hclean => exact if_pos hclean
    | inr hbefore => rw [hbefore, ite_self]
  refine ⟨?_, ?_, ?_, ?_⟩
  · intro claim hclaim
    refine ⟨(h.claims claim hclaim).le, ?_⟩
    intro heq
    -- a claim on the current revision leaves the answer no earlier one
    have hrevision : r.configRevision = s.item.configRevision := by
      have hclaimLe := hbound claim hclaim
      have hclaimEq : claim.appliedRevision = s.item.configRevision :=
        congrArg ConfigState.appliedRevision heq
      omega
    rw [hlast hrevision]
    exact congrArg some (hcurrent hrevision)
  · intro r' hr'
    have hsame : r = r' := Option.some.inj hr'
    subst hsame
    exact ⟨hle, hcurrent, hbound⟩
  · exact fun _ _ heq => nomatch heq
  · intro r' heq
    have hsame : r = r' := by
      injection heq
    rw [← hsame]
    exact hlast

theorem Honest.goOn (h : Honest s) {phase : Phase}
    (hr : s.phase.response = some r) (hphase : phase.response = some r)
    (hstopping : ∀ r clean, phase = .stoppingAi r clean → SoFar s r clean)
    (hrecording : ∀ r, phase ≠ .recording r .applied) : Honest { s with phase := phase } := by
  refine ⟨?_, ?_, hstopping, fun r heq => absurd heq (hrecording r)⟩
  · exact fun claim hclaim => (h.claims claim hclaim).congr rfl rfl rfl
  · intro r' hr'
    change phase.response = some r' at hr'
    rw [hphase, Option.some.injEq] at hr'
    subst hr'
    obtain ⟨hle, hcurrent, hbound⟩ := h.inHand r hr
    exact ⟨hle, hcurrent, hbound⟩

theorem Honest.enforceAi (h : Honest s)
    (hr : s.phase.response = some r) (hsoFar : SoFar s r clean) :
    Honest (enforceAi r clean s) := by
  unfold AppliedPolicy.enforceAi
  split
  · exact h.enforced hr hsoFar
  · refine h.goOn hr rfl ?_ (fun _ => nofun)
    intro r' clean' heq
    injection heq with hr' hclean
    rw [← hr', ← hclean]
    exact hsoFar

theorem Honest.enforce (h : Honest s)
    (hr : s.phase.response = some r) : Honest (enforce r s) := by
  unfold AppliedPolicy.enforce
  split
  · exact h.enforceAi hr (fun _ => Or.inl rfl)
  · exact h.goOn hr rfl (fun _ _ => nofun) (fun _ => nofun)

theorem Honest.writeApplied (h : Honest s)
    (hphase : s.phase = .recording r .applied) (statusOk revisionOk : Bool) :
    Holds s (writeOutcome r .applied statusOk revisionOk s.settings) := by
  have hr : s.phase.response = some r := by rw [hphase]; rfl
  obtain ⟨hle, hcurrent, hbound⟩ := h.inHand r hr
  have hsettings : s.settings.appliedRevision ≤ r.configRevision :=
    hbound _ List.mem_cons_self
  have hrevision : (writeOutcome r .applied statusOk revisionOk s.settings).appliedRevision ≤
      r.configRevision := by
    unfold writeOutcome
    dsimp only
    split
    · exact Nat.le_refl _
    · exact hsettings
  refine ⟨Nat.le_trans hrevision hle, ?_⟩
  intro heq
  have hlatest : r.configRevision = s.item.configRevision := by
    have hrev := congrArg ConfigState.appliedRevision heq
    dsimp only at hrev
    omega
  rw [h.recording r hphase hlatest, hcurrent hlatest]

theorem Honest.writeFailed (h : Honest s) {status : ApplyStatus}
    (hfailed : status ≠ .applied) (statusOk revisionOk : Bool) :
    Holds s (writeOutcome r status statusOk revisionOk s.settings) := by
  have hold : Holds s s.settings := h.claims _ List.mem_cons_self
  have hrevision : (writeOutcome r status statusOk revisionOk s.settings).appliedRevision =
      s.settings.appliedRevision := if_neg (fun hboth => hfailed hboth.1)
  constructor
  · rw [hrevision]
    exact hold.le
  · intro heq
    apply hold.enforced
    have hstatus := congrArg ConfigState.applyStatus heq
    have hrev := congrArg ConfigState.appliedRevision heq
    rw [hrevision] at hrev
    unfold writeOutcome at hstatus
    dsimp only at hstatus
    split at hstatus
    · exact absurd hstatus hfailed
    · exact ConfigState.ext hrev hstatus

theorem Honest.outcome (h : Honest s) {status : ApplyStatus}
    (hphase : s.phase = .recording r status) (statusOk revisionOk : Bool) :
    Honest { s with
      phase := .idle, settings := writeOutcome r status statusOk revisionOk s.settings } := by
  have hsettings : Holds s (writeOutcome r status statusOk revisionOk s.settings) := by
    by_cases happlied : status = .applied
    · subst happlied
      exact h.writeApplied hphase statusOk revisionOk
    · exact h.writeFailed happlied statusOk revisionOk
  constructor
  · intro claim hclaim
    have hone : Holds s claim := by
      cases List.mem_cons.mp hclaim with
      | inl heq =>
        rw [heq]
        exact hsettings
      | inr hrest => exact h.claims claim (List.mem_cons_of_mem _ hrest)
    exact hone.congr rfl rfl rfl
  · exact fun _ heq => nomatch heq
  · exact fun _ _ heq => nomatch heq
  · exact fun _ heq => nomatch heq

/-! ## The theorem -/

theorem step_honest {s t : System} {a : Label} (h : Honest s) (hguard : Kept s a)
    (hstep : step s a = some t) : Honest t := by
  cases a with
  | patchAiPolicy patch => cases hstep; exact h.bump rfl rfl
  | patchCloudStorage => cases hstep; exact h.bump rfl rfl
  | patchLicense status => cases hstep; exact h.patchLicense status hguard
  | send readOk =>
    simp only [step] at hstep
    split at hstep
    · cases hstep; exact h.send readOk
    · cases hstep
  | deliver k =>
    obtain ⟨beat, hget, rfl⟩ := Option.map_eq_some_iff.mp hstep
    exact h.deliver hget
  | giveUp =>
    simp only [step] at hstep
    split at hstep
    · cases hstep; exact h.setPhase rfl
    · cases hstep; exact h.setPhase rfl
    · cases hstep
  | settingsWritten ok =>
    simp only [step] at hstep
    split at hstep
    · next r hphase =>
      have hr : s.phase.response = some r := by rw [hphase]; rfl
      cases ok with
      | true => cases hstep; exact h.enforce hr
      | false => cases hstep; exact h.setPhase rfl
    · cases hstep
  | recordingStopped ok =>
    simp only [step] at hstep
    split at hstep
    · next r hphase =>
      have hr : s.phase.response = some r := by rw [hphase]; rfl
      have hsoFar : SoFar s r (true && ok) := SoFar.and (fun _ => Or.inl rfl) hr hguard
      rw [Bool.true_and] at hsoFar
      cases hstep
      exact h.enforceAi hr hsoFar
    · cases hstep
  | aiStopped ok =>
    simp only [step] at hstep
    split at hstep
    · next r clean hphase =>
      have hr : s.phase.response = some r := by rw [hphase]; rfl
      cases hstep
      exact h.enforced hr (SoFar.and (h.stopping r clean hphase) hr hguard)
    · cases hstep
  | outcomeWritten statusOk revisionOk =>
    simp only [step] at hstep
    split at hstep
    · next r status hphase => cases hstep; exact h.outcome hphase statusOk revisionOk
    · cases hstep
  | restart => cases hstep; exact h.setPhase rfl

/-- In every run in which a `stopAll` fails only for an answer superseded or enforced before,
and the license changes no restrictions under a revision that is claimed or in hand, what the
Central shows as applied is what was last enforced. -/
theorem applied_is_enforced {s : System} (h : Reach policyMachine Kept s) :
    AppliedIsEnforced s := by
  have hhonest : Honest s := by
    refine h.invariant ?_ (fun s a t => step_honest)
    rintro s ⟨item, rfl⟩
    exact newSystem_honest item
  exact hhonest.applied

/-! ## Runs -/

def licensed : Item := ⟨.active, {}, 0, ⟨0, .unknown⟩⟩

def heartbeatApplied : List Label :=
  [.send true, .deliver 0, .settingsWritten true, .outcomeWritten true true]

def policyReported : List Label :=
  Label.patchAiPolicy { object := some true } :: heartbeatApplied ++
    ([.send true, .deliver 0] : List Label)

theorem applied_is_enforced_reported : ∃ s, Reach policyMachine Kept s ∧ showsApplied s.item ∧
    s.lastEnforced = some s.wanted := by
  have hrun : (policyMachine.run kept (newSystem licensed) policyReported).map
      (fun s => decide (showsApplied s.item)) = some true := by
    rfl
  obtain ⟨s, hreach, hshows⟩ := reach_of_run (G := Kept) hrun ⟨licensed, rfl⟩ (fun _ _ h => h)
  have happlied := of_decide_eq_true hshows
  exact ⟨s, hreach, happlied, applied_is_enforced hreach happlied⟩

/-- The license is suspended after the policy was reported as applied. -/
def suspendedAfter : List Label := policyReported ++ [Label.patchLicense .suspended]

def aiNotStopped : List Label :=
  [.patchAiPolicy { motion := some false }, .send true, .deliver 0, .settingsWritten true,
    .aiStopped false, .outcomeWritten true true, .send true, .deliver 0]

theorem not_enforced_of_run {labels : List Label} {status : LicenseStatus}
    (h : (policyMachine.run anyStep (newSystem licensed) labels).map
      (fun s => (decide (showsApplied s.item), decide (s.lastEnforced = some s.wanted),
        s.item.licenseStatus)) = some (true, false, status)) :
    ∃ s, Reach policyMachine Always s ∧ ¬ AppliedIsEnforced s ∧
      s.item.licenseStatus = status := by
  obtain ⟨s, hreach, heq⟩ := reach_of_anyStep h ⟨licensed, rfl⟩
  rw [Prod.mk.injEq, Prod.mk.injEq] at heq
  obtain ⟨hshows, hnot, hstatus⟩ := heq
  refine ⟨s, hreach, ?_, hstatus⟩
  intro happlied
  exact of_decide_eq_false hnot (happlied (of_decide_eq_true hshows))

/-- Shown as applied with the license suspended and the old restrictions enforced; and, with
the license untouched, when the AI was asked to stop and did not. -/
theorem applied_not_enforced :
    (∃ s, Reach policyMachine Always s ∧ ¬ AppliedIsEnforced s ∧
      s.item.licenseStatus = .suspended) ∧
    ∃ s, Reach policyMachine Always s ∧ ¬ AppliedIsEnforced s ∧
      s.item.licenseStatus = .active := by
  constructor
  · have hrun : (policyMachine.run anyStep (newSystem licensed) suspendedAfter).map
        (fun s => (decide (showsApplied s.item), decide (s.lastEnforced = some s.wanted),
          s.item.licenseStatus)) = some (true, false, .suspended) := by
      rfl
    exact not_enforced_of_run hrun
  · have hrun : (policyMachine.run anyStep (newSystem licensed) aiNotStopped).map
        (fun s => (decide (showsApplied s.item), decide (s.lastEnforced = some s.wanted),
          s.item.licenseStatus)) = some (true, false, .active) := by
      rfl
    exact not_enforced_of_run hrun

end Drac.Central.AppliedPolicy
