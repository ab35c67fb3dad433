import Mathlib.Data.Int.Notation
import Mathlib.Data.List.Count
import Drac.Lib.Runs

/-
  The tokens an installer is downloaded with.

  Correspondence:
    `installer-security.js`   isInstallerTokenActive, issueInstallerGrant,
        consumeInstallerDownload ↔ the same names
    `server.js`   normalizeDb, refreshInstallerGrant ↔ the same names; handleProvision,
        handleGetInstallerCommand, the start of a remote install and handleQuickInstaller ↔
        the labels `provision`, `command`, `remote` and `download`

  Requests are handled one after another, each at one time, whatever these are. An artifact is as
  `normalizedExecutionArtifact` leaves it, and `configured` is what the environment approves,
  `none` where that is refused; where the command of a request cannot be built (`built` is
  false) nothing is saved. A token is random: neither it nor its digest is one of those
  before. `issued`, `accepted` and `approved` record what has happened, and `legacy` the tokens
  that old records had in clear.
-/

namespace Drac.Central.InstallerTokens

open Runs

structure Artifact where
  commit : String
  url : String
  repositoryUrl : String
  sha256 : String
  deriving DecidableEq

structure Item where
  lastHeartbeatAt : Option ℤ := none
  installerArtifact : Option Artifact := none
  /-- Where old records had the token itself. -/
  installerToken : Option String := none
  installerTokenHash : Option String := none
  installerTokenExpiresAt : ℤ := 0
  installerTokenRemainingDownloads : ℕ := 0

/-- The configuration, and the digest a stored token is compared by. -/
structure Settings where
  digest : String → String
  digest_length : ∀ text, (digest text).length = 64
  ttlMs : ℤ
  maxDownloads : ℕ

/-- A token that was given out, with what was granted. -/
structure Issue where
  token : String
  id : String
  granted : ℕ
  expiresAt : ℤ

/-- A download, with the token last issued for the installation and the artifact last approved
for it. -/
structure Accept where
  token : String
  id : String
  time : ℤ
  script : Artifact
  latest : Option String
  approved : Option Artifact

structure Server where
  installations : String → Option Item
  issued : List Issue := []
  accepted : List Accept := []
  approved : String → Option Artifact
  legacy : List String := []

variable (cfg : Settings)

def isInstallerTokenActive (item : Item) (now : ℤ) : Prop :=
  item.installerTokenHash ≠ none ∧ 1 ≤ item.installerTokenRemainingDownloads
    ∧ now < item.installerTokenExpiresAt

instance decidableIsInstallerTokenActive (item : Item) (now : ℤ) :
    Decidable (isInstallerTokenActive item now) := inferInstanceAs (Decidable (_ ∧ _))

/-- The artifact is bound where that is asked, and a token issued where one is made. -/
def issueInstallerGrant (item : Item) (artifact : Artifact) (rotateArtifact : Bool) (now : ℤ)
    (randomToken : Option String) : Item :=
  let bound := if rotateArtifact then { item with installerArtifact := some artifact } else item
  match randomToken with
  | none => { bound with installerToken := none }
  | some token =>
    { bound with
      installerToken := none
      installerTokenHash := some (cfg.digest token)
      installerTokenExpiresAt := now + cfg.ttlMs
      installerTokenRemainingDownloads := min 10 (max 1 cfg.maxDownloads) }

def refreshInstallerGrant (item : Item) (forceArtifact : Bool) (configured : Option Artifact)
    (now : ℤ) (randomToken : Option String) : Option Item :=
  let bindConfiguredArtifact := forceArtifact || item.installerArtifact.isNone
  let artifact := if bindConfiguredArtifact then configured else item.installerArtifact
  artifact.map fun artifact =>
    issueInstallerGrant cfg item artifact bindConfiguredArtifact now randomToken

def consumeInstallerDownload (item : Item) : Item :=
  { item with installerTokenRemainingDownloads := item.installerTokenRemainingDownloads - 1 }

namespace Server

variable (s : Server)

/-- The records as they are read. -/
def normalizeDb : Server :=
  { s with
    installations := fun id =>
      (s.installations id).map fun item => { item with installerToken := none } }

/-- A record is saved, with a token that was issued and an artifact that was approved, if any. -/
def put (id : String) (item : Item) (token : Option String) (approval : Option Artifact) : Server :=
  { s with
    installations := Function.update s.installations id (some item)
    approved := if approval.isSome then Function.update s.approved id approval else s.approved
    issued := (token.map fun token => ⟨token, id, item.installerTokenRemainingDownloads,
      item.installerTokenExpiresAt⟩).toList ++ s.issued }

/-- A new token: of its length, and of no digest stored before. -/
def Fresh (token : String) : Prop :=
  token.length = 32 ∧ token ∉ s.legacy ∧
    ∀ issue ∈ s.issued, cfg.digest issue.token ≠ cfg.digest token

instance decidableFresh (token : String) : Decidable (s.Fresh cfg token) :=
  inferInstanceAs (Decidable (_ ∧ _))

def latest (id : String) : Option Issue := s.issued.find? (·.id = id)

/-- What the three requests of an administrator do to a record. To provision an installation
approves the configured artifact for it, and so does the first command for a record without one. -/
def grant (id : String) (item : Item) (forceArtifact : Bool) (configured : Option Artifact)
    (now : ℤ) (token : Option String) (built : Bool) : Option Server :=
  if ∀ text ∈ token, s.Fresh cfg text then
    match refreshInstallerGrant cfg item forceArtifact configured now token, built with
    | some granted, true =>
      let approval := if forceArtifact || item.installerArtifact.isNone then configured else none
      some (s.normalizeDb.put id granted token approval)
    | _, _ => some s
  else none

def serve (id : String) (item : Item) (now : ℤ) (bearer : String) (script : Artifact) : Server :=
  { s.put id (consumeInstallerDownload item) none none with
    accepted :=
      ⟨bearer, id, now, script, (s.latest id).map (·.token), s.approved id⟩ :: s.accepted }

end Server

inductive Label where
  | provision (id : String) (now : ℤ) (configured : Option Artifact) (token : String) (built : Bool)
  | command (id : String) (now : ℤ) (configured : Option Artifact) (token : String) (built : Bool)
  | remote (id : String) (now : ℤ) (configured : Option Artifact) (built : Bool)
  | download (id : String) (now : ℤ) (bearer : String) (built : Bool)

def handle (s : Server) : Label → Option Server
  | .provision id now configured token built =>
    let existing := (s.normalizeDb.installations id).getD {}
    if existing.lastHeartbeatAt.isSome then some s
    else s.grant cfg id existing true configured now (some token) built
  | .command id now configured token built =>
    (s.normalizeDb.installations id).elim (some s) fun item =>
      s.grant cfg id item false configured now (some token) built
  | .remote id now configured built =>
    (s.normalizeDb.installations id).elim (some s) fun item =>
      s.grant cfg id item false configured now none built
  | .download id now bearer built =>
    -- a refusal is saved in the audit, and with it the records as they were read
    (s.normalizeDb.installations id).elim (some s.normalizeDb) fun item =>
      if isInstallerTokenActive item now ∧ item.installerTokenHash = some (cfg.digest bearer)
          ∧ built then
        item.installerArtifact.elim (some s.normalizeDb) fun script =>
          some (s.normalizeDb.serve id item now bearer script)
      else some s.normalizeDb

/-- What is said of the token of a record, as `ItemSound` has it. -/
def Current (cfg : Settings) (s : Server) (id : String) (item : Item) : Prop :=
  ∀ hash ∈ item.installerTokenHash, ∃ issue, s.latest id = some issue
    ∧ hash = cfg.digest issue.token ∧ item.installerTokenExpiresAt = issue.expiresAt
    ∧ item.installerTokenRemainingDownloads + s.accepted.countP (·.token = issue.token)
      ≤ issue.granted

/-- The record of an installation, and what was approved and issued for it last. -/
structure ItemSound (cfg : Settings) (s : Server) (id : String) (item : Item) : Prop where
  approved : s.approved id = item.installerArtifact
  clear : ∀ text ∈ item.installerToken, text ∈ s.legacy
  current : Current cfg s id item

/-- The records fit what was issued: each hash is of the token last issued for its
installation, and a token in clear is of an old record. -/
structure Recorded (cfg : Settings) (s : Server) : Prop where
  item : ∀ id, ∀ item ∈ s.installations id, ItemSound cfg s id item
  distinct : ∀ a ∈ s.issued, ∀ b ∈ s.issued, cfg.digest a.token = cfg.digest b.token → a = b
  random : ∀ issue ∈ s.issued, issue.token.length = 32 ∧ issue.token ∉ s.legacy

/-- It begins with any records, old ones included, and the tokens that are out. -/
def machine : Machine Server Label where
  init s := s.accepted = [] ∧ Recorded cfg s
  step := handle cfg

/-! ## What a token is good for -/

/-- What is promised of the tokens given out. -/
structure TokenBudget (s : Server) : Prop where
  within : ∀ issue ∈ s.issued, s.accepted.countP (·.token = issue.token) ≤ issue.granted
  accepted : ∀ issue ∈ s.issued, ∀ a ∈ s.accepted, a.token = issue.token →
    a.time < issue.expiresAt ∧ a.id = issue.id ∧ a.latest = some issue.token
  not_stored : ∀ id, ∀ item ∈ s.installations id, ∀ issue ∈ s.issued,
    item.installerToken ≠ some issue.token ∧ item.installerTokenHash ≠ some issue.token
  scripts : ∀ a ∈ s.accepted, a.approved = some a.script

/-- The records tell of the tokens given out and of what was accepted. -/
structure Sound (cfg : Settings) (s : Server) : Prop extends Recorded cfg s where
  within : ∀ issue ∈ s.issued, s.accepted.countP (·.token = issue.token) ≤ issue.granted
  accepted : ∀ a ∈ s.accepted, ∃ issue ∈ s.issued, cfg.digest a.token = cfg.digest issue.token
    ∧ a.time < issue.expiresAt ∧ a.id = issue.id ∧ a.latest = some issue.token
  scripts : ∀ a ∈ s.accepted, a.approved = some a.script

variable {cfg} {s : Server} {id : String} {item : Item}

theorem Sound.fresh_unused (h : Sound cfg s) {token : String} (hfresh : s.Fresh cfg token) :
    s.accepted.countP (·.token = token) = 0 := by
  rw [List.countP_eq_zero]
  intro a ha htoken
  obtain ⟨issue, hissue, hdigest, -⟩ := h.accepted a ha
  rw [of_decide_eq_true htoken] at hdigest
  exact hfresh.2.2 issue hissue hdigest.symm

theorem Sound.normalizeDb (h : Sound cfg s) : Sound cfg s.normalizeDb := by
  refine ⟨⟨?_, h.distinct, h.random⟩, h.within, h.accepted, h.scripts⟩
  intro id item hitem
  obtain ⟨old, hold, rfl⟩ := Option.map_eq_some_iff.mp hitem
  exact ⟨(h.item id old hold).approved, nofun, (h.item id old hold).current⟩

theorem Sound.put (h : Sound cfg s) {token : Option String} {approval : Option Artifact}
    (hfresh : ∀ text ∈ token, s.Fresh cfg text) (hno : item.installerToken = none)
    (happroval : item.installerArtifact = approval.or (s.approved id))
    (hcurrent : Current cfg (s.put id item token approval) id item) :
    Sound cfg (s.put id item token approval) := by
  have hissued : ∀ issue ∈ (s.put id item token approval).issued,
      issue ∈ s.issued ∨ issue.token ∈ token := by
    intro issue hissue
    cases token with
    | none => exact .inl hissue
    | some text =>
      rcases List.mem_cons.mp hissue with rfl | hmem
      · exact .inr rfl
      · exact .inl hmem
  have hold : ∀ issue ∈ s.issued, issue ∈ (s.put id item token approval).issued :=
    fun issue hissue => List.mem_append_right _ hissue
  refine ⟨⟨?_, ?_, ?_⟩, ?_, ?_, h.scripts⟩
  · intro other record hrecord
    by_cases hid : other = id
    · subst hid
      obtain rfl : item = record := by simpa [Server.put] using hrecord
      refine ⟨?_, by simp [hno], hcurrent⟩
      rw [happroval]
      cases approval <;> simp [Server.put]
    · obtain ⟨happroved, hnone, hcur⟩ := h.item other record
        (by simpa [Server.put, hid] using hrecord)
      refine ⟨?_, hnone, fun hash hhash => ?_⟩
      · cases approval <;> simpa [Server.put, hid] using happroved
      have hlatest : (s.put id item token approval).latest other = s.latest other := by
        cases token <;> simp [Server.latest, Server.put, Ne.symm hid]
      rw [hlatest]
      exact hcur hash hhash
  · intro a ha b hb hdigest
    cases token with
    | none => exact h.distinct a ha b hb hdigest
    | some text =>
      obtain ⟨-, -, hnew⟩ := hfresh text rfl
      simp only [Server.put, Option.map_some, Option.toList_some, List.cons_append,
        List.nil_append, List.mem_cons] at ha hb
      rcases ha with rfl | ha <;> rcases hb with rfl | hb
      · rfl
      · exact absurd hdigest.symm (hnew b hb)
      · exact absurd hdigest (hnew a ha)
      · exact h.distinct a ha b hb hdigest
  · intro issue hissue
    refine (hissued issue hissue).elim (h.random issue) fun hnew => ?_
    exact ⟨(hfresh _ hnew).1, (hfresh _ hnew).2.1⟩
  · intro issue hissue
    rcases hissued issue hissue with hmem | hnew
    · exact h.within issue hmem
    · exact Nat.le_trans (Nat.le_of_eq (h.fresh_unused (hfresh _ hnew))) (Nat.zero_le _)
  · intro a ha
    obtain ⟨issue, hissue, hrest⟩ := h.accepted a ha
    exact ⟨issue, hold issue hissue, hrest⟩

theorem Sound.grant {t : Server} (h : Sound cfg s) {force : Bool} {configured : Option Artifact}
    {now : ℤ} {token : Option String} {built : Bool} (hitem : Current cfg s id item)
    (happroved : force = true ∨ s.approved id = item.installerArtifact)
    (hgrant : s.grant cfg id item force configured now token built = some t) : Sound cfg t := by
  unfold Server.grant at hgrant
  obtain ⟨hfresh, hmade⟩ := Option.ite_none_right_eq_some.mp hgrant
  clear hgrant
  split at hmade
  · next granted hrefresh =>
    obtain rfl := Option.some.inj hmade
    obtain ⟨artifact, hartifact, rfl⟩ := Option.map_eq_some_iff.mp hrefresh
    apply h.normalizeDb.put hfresh
    · cases token <;> rfl
    · have hbound : (issueInstallerGrant cfg item artifact (force || item.installerArtifact.isNone)
          now token).installerArtifact =
            if force || item.installerArtifact.isNone then some artifact
            else item.installerArtifact := by
        unfold issueInstallerGrant
        cases token <;> split <;> rfl
      rw [hbound]
      split at hartifact
      · next hbinds => rw [if_pos hbinds, if_pos hbinds, hartifact, Option.some_or]
      · next hkeeps =>
        rw [if_neg hkeeps, if_neg hkeeps, Option.none_or]
        rw [Bool.or_eq_true, not_or] at hkeeps
        exact (happroved.resolve_left hkeeps.1).symm
    · cases token with
      | none =>
        -- no token is made, and what is said of the old one stays
        intro hash hhash
        unfold issueInstallerGrant at hhash ⊢
        dsimp only at hhash ⊢
        split_ifs at hhash ⊢ <;> exact hitem hash hhash
      | some text =>
        intro hash hhash
        refine ⟨_, List.find?_cons_of_pos (by simp), (Option.some.inj hhash).symm, rfl, ?_⟩
        exact Nat.le_of_eq (congrArg (_ + ·) (h.fresh_unused (hfresh text rfl)))
  · exact Option.some.inj hmade ▸ h

theorem Sound.serve (h : Sound cfg s) (hitem : item ∈ s.installations id) {now : ℤ}
    {bearer : String} {script : Artifact} (hactive : isInstallerTokenActive item now)
    (hhash : item.installerTokenHash = some (cfg.digest bearer))
    (hno : item.installerToken = none) (hscript : item.installerArtifact = some script) :
    Sound cfg (s.serve id item now bearer script) := by
  obtain ⟨happroved, -, hcurrent⟩ := h.item id item hitem
  obtain ⟨issue, hlatest, hdigest, hexpires, hcount⟩ := hcurrent _ hhash
  have hissue : issue ∈ s.issued := List.mem_of_find?_eq_some hlatest
  have hid : issue.id = id := by simpa using List.find?_some hlatest
  -- a bearer that is an issued token is the one last issued here
  have hone : ∀ other ∈ s.issued, bearer = other.token → other = issue := fun other hother heq =>
    h.distinct other hother issue hissue (heq ▸ hdigest)
  have hput : Sound cfg (s.put id (consumeInstallerDownload item) none none) := by
    refine h.put (by simp) hno happroved.symm fun hash hmem => ?_
    obtain ⟨last, hlast, hrest⟩ := hcurrent hash hmem
    refine ⟨last, hlast, hrest.1, hrest.2.1, Nat.le_trans ?_ hrest.2.2⟩
    exact Nat.add_le_add_right (Nat.sub_le _ _) _
  refine ⟨⟨?_, h.distinct, h.random⟩, ?_, ?_, ?_⟩
  · intro other record hrecord
    obtain ⟨happr, hnone, hcur⟩ := hput.item other record hrecord
    refine ⟨happr, hnone, fun hash hmem => ?_⟩
    obtain ⟨last, hlast, hlastDigest, hlastExpires, hlastCount⟩ := hcur hash hmem
    refine ⟨last, hlast, hlastDigest, hlastExpires, ?_⟩
    simp only [Server.serve, List.countP_cons]
    split_ifs with hbearer
    · have hsame := hone last (List.mem_of_find?_eq_some hlast) (of_decide_eq_true hbearer)
      have hother : other = id := by
        have hlastId : last.id = other := by simpa using List.find?_some hlast
        rw [← hid, ← hsame, hlastId]
      subst hother hsame
      obtain rfl : consumeInstallerDownload item = record := by
        simpa [Server.serve, Server.put] using hrecord
      have hpos := hactive.2.1
      simp only [consumeInstallerDownload]
      omega
    · exact hlastCount
  · intro other hother
    simp only [Server.serve, List.countP_cons]
    split_ifs with hbearer
    · rw [hone other hother (of_decide_eq_true hbearer)]
      have hpos := hactive.2.1
      omega
    · exact h.within other hother
  · intro a ha
    rcases List.mem_cons.mp ha with rfl | ha
    · exact ⟨issue, hissue, hdigest, hexpires ▸ hactive.2.2, hid.symm, by simp [hlatest]⟩
    · exact h.accepted a ha
  · intro a ha
    rcases List.mem_cons.mp ha with rfl | ha
    · exact happroved.trans hscript
    · exact h.scripts a ha

theorem Sound.known {t r : Server} {f : Item → Option Server} (hr : Sound cfg r) (h : Sound cfg s)
    (hf : ∀ item ∈ s.normalizeDb.installations id, ItemSound cfg s id item →
      item.installerToken = none → f item = some t → Sound cfg t)
    (hstep : (s.normalizeDb.installations id).elim (some r) f = some t) : Sound cfg t := by
  cases hitem : s.normalizeDb.installations id with
  | none =>
    rw [hitem] at hstep
    exact Option.some.inj hstep ▸ hr
  | some item =>
    rw [hitem] at hstep
    obtain ⟨old, -, rfl⟩ := Option.map_eq_some_iff.mp hitem
    obtain ⟨happroved, hclear, hcurrent⟩ := h.normalizeDb.item id _ hitem
    exact hf _ hitem ⟨happroved, hclear, hcurrent⟩ rfl hstep

theorem Sound.handle {t : Server} {label : Label} (h : Sound cfg s)
    (hhandle : handle cfg s label = some t) : Sound cfg t := by
  cases label with
  | provision id now configured token built =>
    simp only [InstallerTokens.handle] at hhandle
    split_ifs at hhandle
    · exact Option.some.inj hhandle ▸ h
    · refine h.grant ?_ (.inl rfl) hhandle
      cases hitem : s.normalizeDb.installations id with
      | none => intro hash hhash; cases hhash
      | some item => exact (h.normalizeDb.item id item hitem).current
  | command id now configured token built =>
    exact Sound.known h h
      (fun item _ hsound _ => h.grant hsound.current (.inr hsound.approved)) hhandle
  | remote id now configured built =>
    exact Sound.known h h
      (fun item _ hsound _ => h.grant hsound.current (.inr hsound.approved)) hhandle
  | download id now bearer built =>
    refine Sound.known h.normalizeDb h (fun item hitem _ hno hserve => ?_) hhandle
    split_ifs at hserve with haccepted
    · cases hscript : item.installerArtifact with
      | none =>
        rw [hscript] at hserve
        exact Option.some.inj hserve ▸ h.normalizeDb
      | some script =>
        rw [hscript] at hserve
        exact Option.some.inj hserve ▸
          h.normalizeDb.serve hitem haccepted.1 haccepted.2.1 hno hscript
    · exact Option.some.inj hserve ▸ h.normalizeDb

theorem Sound.budget (h : Sound cfg s) : TokenBudget s where
  within := h.within
  accepted issue hissue a ha htoken := by
    obtain ⟨other, hother, hdigest, htime, hid, hlatest⟩ := h.accepted a ha
    obtain rfl := h.distinct issue hissue other hother (htoken ▸ hdigest)
    exact ⟨htime, hid, hlatest⟩
  not_stored id item hitem issue hissue := by
    obtain ⟨-, hclear, hcurrent⟩ := h.item id item hitem
    obtain ⟨hshort, hnew⟩ := h.random issue hissue
    refine ⟨fun htoken => hnew (hclear _ htoken), fun hhash => ?_⟩
    obtain ⟨last, -, hdigest, -⟩ := hcurrent _ hhash
    have hlong := cfg.digest_length last.token
    rw [← hdigest, hshort] at hlong
    exact absurd hlong (by decide)
  scripts := h.scripts

/-- Whatever is asked in whatever order, a token is accepted within what it was granted, before
it expires, while it is the last of its installation and only there; it is in no record, and
what is served names the artifact last approved. -/
theorem token_budget {s : Server} (h : Reach (machine cfg) Always s) : TokenBudget s := by
  refine (show Sound cfg s from h.invariant ?_ ?_).budget
  · rintro s ⟨haccepted, hrecorded⟩
    exact ⟨hrecorded, by simp [haccepted], by simp [haccepted], by simp [haccepted]⟩
  · intro s label t hs _ hstep
    exact hs.handle hstep

def threeDownloads : Settings where
  digest text := String.ofList ((text.toList ++ List.replicate 64 '0').take 64)
  digest_length text := by simp
  ttlMs := 900000
  maxDownloads := 3

def approvedArtifact : Artifact where
  commit := "c1"
  url := "https://example/c1/install-drac.sh"
  repositoryUrl := "https://example/drac.git"
  sha256 := "5f"

/-- An old record, which has its token in clear and no artifact. -/
def oldRecord : Server where
  installations id := if id = "b" then some { installerToken := some "old" } else none
  approved _ := none
  legacy := ["old"]

theorem oldRecord_recorded : Recorded threeDownloads oldRecord := by
  refine ⟨fun id item hitem => ?_, nofun, nofun⟩
  obtain ⟨-, hsome⟩ := Option.ite_none_right_eq_some.mp hitem
  obtain rfl := Option.some.inj hsome
  exact ⟨rfl, by simp [oldRecord], nofun⟩

def downloads : List Label :=
  [.provision "a" 0 (some approvedArtifact) "0123456789abcdef0123456789ABCDEF" true,
    .download "a" 1 "0123456789abcdef0123456789ABCDEF" true,
    .command "b" 2 (some approvedArtifact) "abcdefABCDEF01234567890123456789" true,
    .download "b" 3 "abcdefABCDEF01234567890123456789" true,
    .command "a" 3 none "ABCDEF0123456789abcdef0123456789" true,
    .download "a" 4 "0123456789abcdef0123456789ABCDEF" true]

theorem token_budget_downloads : ∃ s,
    (machine threeDownloads).run anyStep oldRecord downloads = some s
      ∧ s.accepted.length = 2 ∧ TokenBudget s := by
  have hrun : ((machine threeDownloads).run anyStep oldRecord downloads).map
      (·.accepted.length) = some 2 := by decide
  obtain ⟨s, hs, htwo⟩ := Option.map_eq_some_iff.mp hrun
  have hreach : Reach (machine threeDownloads) Always s :=
    ⟨oldRecord, ⟨rfl, oldRecord_recorded⟩, path_of_run (fun _ _ _ => trivial) _ hs⟩
  exact ⟨s, hs, htwo, token_budget hreach⟩

end Drac.Central.InstallerTokens
