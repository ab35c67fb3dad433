import Mathlib.Data.List.DropRight
import Drac.Security.SensitiveText

/-
  The log of a remote installation, and the password in it.

  Correspondence (`apps/central/src/server.js` ↔ Lean):
    appendInstallLog       ↔ the same name
    runRemoteInstall       ↔ `Event`, one constructor for each call of it, and `runLog`
    publicRemoteInstall    ↔ its `log`, which is the job's: `runLog` of the calls so far

  A text is its UTF-16 code units. A chunk is bytes: `decode` is `String(chunk)`.
-/

namespace Drac.Central.InstallLog

open Security GlobalReplace

/-! ## The bytes of a chunk -/

/-- A character that goes on: the bytes after the next one, its bits so far and the bounds of
the next byte. -/
structure Begun where
  more : ℕ
  bits : ℕ
  low : ℕ := 0x80
  high : ℕ := 0xBF

def lead (b : ℕ) : Text × Option Begun :=
  if b < 0x80 then ([b], none)
  else if 0xC2 ≤ b ∧ b < 0xE0 then ([], some { more := 0, bits := b - 0xC0 })
  else if 0xE0 ≤ b ∧ b < 0xF0 then
    ([], some ⟨1, b - 0xE0, if b = 0xE0 then 0xA0 else 0x80, if b = 0xED then 0x9F else 0xBF⟩)
  else if 0xF0 ≤ b ∧ b < 0xF5 then
    ([], some ⟨2, b - 0xF0, if b = 0xF0 then 0x90 else 0x80, if b = 0xF4 then 0x8F else 0xBF⟩)
  else ([0xFFFD], none)

def next : Option Begun → ℕ → Text × Option Begun
  | none, b => lead b
  | some c, b =>
    let bits := c.bits * 0x40 + b % 0x40
    if c.low ≤ b ∧ b ≤ c.high then
      if c.more = 0 then (JsText.units (Char.ofNat bits), none)
      else ([], some { more := c.more - 1, bits })
    else (0xFFFD :: (lead b).1, (lead b).2)

def decodeFrom : Option Begun → List UInt8 → Text
  | none, [] => []
  | some _, [] => [0xFFFD]
  | c, b :: bytes => (next c b.toNat).1 ++ decodeFrom (next c b.toNat).2 bytes

/-- UTF-8, where what is malformed gives U+FFFD. -/
def decode (bytes : List UInt8) : Text := decodeFrom none bytes

/-! ## The log -/

def occurrence (s : Text) (_ : Option ℕ) (text : Text) : Option (Hit ℕ) :=
  if s <+: text then some ⟨s.length - 1, List.replicate 6 0x2022⟩ else none

/-- `if (s) text = text.split(s).join('••••••');`. -/
def mask (text s : Text) : Text := if s = [] then text else replaceAll (occurrence s) text

def LOG_LIMIT : ℕ := 200000

def appendInstallLog (log chunk : Text) (secrets : List Text) : Text :=
  let log := log ++ secrets.foldl mask chunk
  if LOG_LIMIT < log.length then log.rtake LOG_LIMIT else log

inductive Stream
  | stdout
  | stderr
  deriving DecidableEq

/-- What an installation reports while it runs. -/
inductive Event
  | connecting (username host port : Text)
  | hostKeyChanged (known fingerprint : Text)
  | hostKeyLearned (fingerprint : Text)
  | ready
  | execError (message : Text)
  | data (stream : Stream) (chunk : List UInt8)
  | close (code : Text)
  | error (message : Text)

def Event.text : Event → Text
  | connecting username host port =>
    units ">> conectando em " ++ username ++ units "@" ++ host ++ units ":" ++ port ++ units "…\n"
  | hostKeyChanged known fingerprint =>
    units ">> ABORTADO: a host key SSH deste servidor MUDOU (esperada SHA256:" ++ known ++
      units ", recebida SHA256:" ++ fingerprint ++
      units "). Pode ser man-in-the-middle. Se a troca foi legítima " ++
      units "(reinstalação do servidor), limpe a chave conhecida na instalação e tente de novo.\n"
  | hostKeyLearned fingerprint =>
    units ">> host key aprendida (SHA256:" ++ fingerprint ++
      units ") — será exigida nas próximas conexões.\n"
  | ready => units ">> conectado. iniciando instalador…\n"
  | execError message => units ">> erro ao executar: " ++ message ++ units "\n"
  | data _ chunk => decode chunk
  | close code => units "\n>> instalador finalizou com código " ++ code ++ units ".\n"
  | error message => units ">> falha de conexão SSH: " ++ message ++ units "\n"

variable (password : Text)

def Event.secrets : Event → List Text
  | data _ _ => [password]
  | _ => []

def runLog (events : List Event) : Text :=
  events.foldl (fun log e => appendInstallLog log e.text (e.secrets password)) []

/-! ## What the log is for -/

def chunks (stream : Stream) (events : List Event) : List (List UInt8) :=
  events.filterMap fun
    | .data s chunk => if s = stream then some chunk else none
    | _ => none

def output (stream : Stream) (events : List Event) : List UInt8 := (chunks stream events).flatten

def shown (e : Event) : Text := (e.secrets password).foldl mask e.text

/-- The log after `seen`: the password is not in it where a stream's output had it, and it is
otherwise the lines and the outputs, up to its length. -/
structure Guarded (seen : List Event) : Prop where
  hidden : ∀ stream, password <:+: decode (output stream seen) → ¬ password <:+: runLog password seen
  rest : runLog password seen = (seen.flatMap (shown password)).rtake LOG_LIMIT
  whole : ∀ stream, (chunks stream seen).flatMap decode = decode (output stream seen)

/-! ## When it does that -/

/-- The character that the bytes have begun and not ended. -/
def begun (c : Option Begun) (bytes : List UInt8) : Option Begun :=
  bytes.foldl (fun c b => (next c b.toNat).2) c

/-- The chunk does not go on with a character begun before it. -/
def startsAnew (c : Option Begun) (chunk : List UInt8) : Bool :=
  c.all fun c => chunk.head?.all fun b => !(c.low ≤ b.toNat && b.toNat ≤ c.high)

def uncut : Option Begun → List (List UInt8) → Bool
  | _, [] => true
  | c, chunk :: rest => startsAnew c chunk && uncut (begun c chunk) rest

/-- No chunk of a stream is cut off inside a character. -/
def Whole (events : List Event) : Prop := ∀ stream, uncut none (chunks stream events) = true

/-- A text that begins in one piece and goes on to the end of another. -/
def Spread (text : Text) (pieces : List Text) : Prop :=
  ∃ before first middle last after a b, pieces = before ++ first :: (middle ++ last :: after) ∧
    a ≠ [] ∧ b ≠ [] ∧ a <:+ first ∧ b <+: last ∧ text = a ++ (middle.flatten ++ b)

def Event.isData : Event → Bool
  | data _ _ => true
  | _ => false

/-- The installer's own lines do not have the password, and no cut goes through it. -/
structure Apart (events : List Event) : Prop where
  lines : ∀ e ∈ events, e.isData = false → ¬ password <:+: e.text
  cuts : ¬ Spread password (events.map Event.text)

section Pieces

variable {text : Text}

theorem prefix_flatten (htext : text ≠ []) {pieces : List Text} (h : text <+: pieces.flatten) :
    ∃ middle last after b, pieces = middle ++ last :: after ∧ b ≠ [] ∧ b <+: last ∧
      text = middle.flatten ++ b := by
  induction pieces generalizing text with
  | nil => exact absurd (List.prefix_nil.mp h) htext
  | cons piece pieces ih =>
    rw [List.flatten_cons] at h
    obtain hin | ⟨more, rfl⟩ := List.prefix_or_prefix_of_prefix h (List.prefix_append _ _)
    · exact ⟨[], piece, pieces, text, rfl, htext, hin, rfl⟩
    · by_cases hmore : more = []
      · subst hmore
        rw [List.append_nil] at htext ⊢
        exact ⟨[], piece, pieces, piece, rfl, htext, List.prefix_refl _, rfl⟩
      · obtain ⟨middle, last, after, b, rfl, hb, hlast, rfl⟩ :=
          ih hmore ((List.prefix_append_right_inj _).mp h)
        exact ⟨piece :: middle, last, after, b, rfl, hb, hlast, by simp⟩

theorem spread_of_infix (htext : text ≠ []) {pieces : List Text} (h : text <:+: pieces.flatten) :
    (∃ piece ∈ pieces, text <:+: piece) ∨ Spread text pieces := by
  induction pieces with
  | nil => exact absurd (List.infix_nil.mp h) htext
  | cons piece pieces ih =>
    rw [List.flatten_cons, List.infix_append_iff_ne_nil] at h
    obtain hin | hin | ⟨a, q, ha, hq, rfl, hfirst, hrest⟩ := h
    · exact .inl ⟨piece, List.mem_cons_self, hin⟩
    · obtain ⟨other, hmem, hin⟩ | ⟨before, first, middle, last, after, a, b, rfl, hspread⟩ := ih hin
      · exact .inl ⟨other, List.mem_cons_of_mem _ hmem, hin⟩
      · exact .inr ⟨piece :: before, first, middle, last, after, a, b, rfl, hspread⟩
    · obtain ⟨middle, last, after, b, rfl, hb, hlast, rfl⟩ := prefix_flatten hq hrest
      exact .inr ⟨[], piece, middle, last, after, a, b, rfl, ha, hb, hfirst, hlast, rfl⟩

theorem Spread.append {pieces : List Text} (h : Spread text pieces) (more : List Text) :
    Spread text (pieces ++ more) := by
  obtain ⟨before, first, middle, last, after, a, b, rfl, hspread⟩ := h
  exact ⟨before, first, middle, last, after ++ more, a, b, by simp, hspread⟩

end Pieces

/-! ## A masked chunk -/

theorem prefix_of_scan {s q : Text} (hq : 0x2022 ∉ q) {prev : Option ℕ} {text : Text}
    (h : q <+: scan (occurrence s) 0 prev text) : q <+: text := by
  induction q generalizing prev text with
  | nil => exact List.nil_prefix
  | cons a q ih =>
    cases text with
    | nil => exact h
    | cons c text =>
      by_cases hs : s <+: c :: text
      · rw [scan_hit (if_pos hs)] at h
        rw [(List.cons_prefix_cons.mp h).1] at hq
        exact absurd List.mem_cons_self hq
      · rw [scan_none (if_neg hs)] at h
        obtain ⟨rfl, hrest⟩ := List.cons_prefix_cons.mp h
        exact List.cons_prefix_cons.mpr ⟨rfl, ih (fun hin => hq (List.mem_cons_of_mem _ hin)) hrest⟩

theorem mark_of_inner {q : Text} (hq : q ≠ []) (hin : q <:+: List.replicate 6 0x2022) :
    0x2022 ∈ q := by
  obtain ⟨x, hx⟩ := List.exists_mem_of_ne_nil q hq
  rwa [List.eq_of_mem_replicate (hin.subset hx)] at hx

theorem scan_of_clear {s : Text} {prev : Option ℕ} {text : Text}
    (h : 0x2022 ∉ scan (occurrence s) 0 prev text) : scan (occurrence s) 0 prev text = text := by
  induction text generalizing prev with
  | nil => rfl
  | cons c text ih =>
    by_cases hs : s <+: c :: text
    · rw [scan_hit (if_pos hs)] at h
      exact absurd (List.mem_append_left _ List.mem_cons_self) h
    · rw [scan_none (if_neg hs)] at h ⊢
      rw [ih (fun hin => h (List.mem_cons_of_mem _ hin))]

theorem suffix_of_scan {s q : Text} (hq : 0x2022 ∉ q) {skip : ℕ} {prev : Option ℕ} {text : Text}
    (h : q <:+ scan (occurrence s) skip prev text) : q <:+ text := by
  induction text generalizing skip prev with
  | nil =>
    rw [scan] at h
    exact h
  | cons c text ih =>
    cases skip with
    | succ skip => exact (ih h).trans (List.suffix_cons _ _)
    | zero =>
      by_cases hs : s <+: c :: text
      · rw [scan_hit (if_pos hs)] at h
        obtain hin | ⟨marks, rfl⟩ := List.suffix_or_suffix_of_suffix h (List.suffix_append _ _)
        · exact (ih hin).trans (List.suffix_cons _ _)
        · by_cases hmarks : marks = []
          · rw [hmarks] at ih ⊢
            exact (ih (List.suffix_refl _)).trans (List.suffix_cons _ _)
          · obtain ⟨before, hbefore⟩ := h
            rw [← List.append_assoc] at hbefore
            have hin : marks <:+: List.replicate 6 0x2022 :=
              (List.append_cancel_right hbefore ▸ List.suffix_append before marks).isInfix
            exact absurd (List.mem_append_left _ (mark_of_inner hmarks hin)) hq
      · have hkeep : scan (occurrence s) 0 prev (c :: text) = _ := scan_none (if_neg hs)
        rw [hkeep, List.suffix_cons_iff] at h
        obtain rfl | hin := h
        · rw [← hkeep] at hq ⊢
          have hsame := scan_of_clear hq
          exact hsame.symm ▸ List.suffix_rfl
        · exact (ih hin).trans (List.suffix_cons _ _)

theorem not_infix_scan {password : Text} (hp : password ≠ []) (hclear : 0x2022 ∉ password)
    (chunk : Text) : ∀ skip prev, ¬ password <:+: scan (occurrence password) skip prev chunk := by
  induction chunk with
  | nil => exact fun _ _ h => hp (List.infix_nil.mp (by rwa [scan] at h))
  | cons c chunk ih =>
    intro skip prev h
    cases skip with
    | succ skip => exact ih _ _ h
    | zero =>
      by_cases hs : password <+: c :: chunk
      · rw [scan_hit (if_pos hs), List.infix_append_iff_ne_nil] at h
        obtain hin | hin | ⟨a, b, ha, -, rfl, hmark, -⟩ := h
        · exact hclear (mark_of_inner hp hin)
        · exact ih _ _ hin
        · exact hclear (List.mem_append_left _ (mark_of_inner ha hmark.isInfix))
      · have hkeep : scan (occurrence password) 0 prev (c :: chunk) = _ := scan_none (if_neg hs)
        rw [hkeep, List.infix_cons_iff, ← hkeep] at h
        obtain hin | hin := h
        · exact hs (prefix_of_scan hclear hin)
        · exact ih _ _ hin

/-- A password without `•` is in no chunk once that is masked. -/
theorem not_infix_mask {password : Text} (hp : password ≠ []) (hclear : 0x2022 ∉ password)
    (chunk : Text) : ¬ password <:+: mask chunk password := by
  rw [mask, if_neg hp]
  exact not_infix_scan hp hclear chunk 0 none

theorem not_infix_mask_within : ¬ units "ab" <:+: mask (units "aabb ab") (units "ab") :=
  not_infix_mask (by decide) (by decide) _

/-! ## The log of a run -/

theorem rtake_rtake_append (n : ℕ) (a b : Text) :
    (a.rtake n ++ b).rtake n = (a ++ b).rtake n := by
  have hle : a.length - n ≤ a.length := Nat.sub_le _ _
  unfold List.rtake
  rw [← List.drop_append_of_le_length hle, List.drop_drop, List.length_drop, List.length_append]
  congr 1
  omega

theorem appendInstallLog_eq (log chunk : Text) (secrets : List Text) :
    appendInstallLog log chunk secrets = (log ++ secrets.foldl mask chunk).rtake LOG_LIMIT := by
  rw [appendInstallLog]
  split
  · rfl
  · next h => rw [List.rtake, Nat.sub_eq_zero_of_le (not_lt.mp h), List.drop_zero]

/-- The log is the end of all that was added to it. -/
theorem runLog_eq (events : List Event) :
    runLog password events = (events.flatMap (shown password)).rtake LOG_LIMIT := by
  induction events using List.reverseRecOn with
  | nil => exact (List.rtake_nil _).symm
  | append_singleton seen e ih =>
    rw [runLog, List.foldl_concat, ← runLog, ih, appendInstallLog_eq, rtake_rtake_append,
      List.flatMap_append, List.flatMap_singleton, shown]

section Masked

variable {password} {e : Event} {q : Text}

theorem shown_data (hp : password ≠ []) (he : e.isData = true) :
    shown password e = scan (occurrence password) 0 none e.text := by
  cases e with
  | data stream chunk => exact if_neg hp
  | _ => cases he

theorem shown_line (he : e.isData = false) : shown password e = e.text := by
  cases e with
  | data stream chunk => cases he
  | _ => rfl

theorem shown_clear (hp : password ≠ []) (e : Event) :
    (∀ q, 0x2022 ∉ q → q <+: shown password e → q <+: e.text) ∧
      (∀ q, 0x2022 ∉ q → q <:+ shown password e → q <:+ e.text) ∧
      (0x2022 ∉ shown password e → shown password e = e.text) := by
  cases he : e.isData with
  | false =>
    rw [shown_line he]
    exact ⟨fun _ _ h => h, fun _ _ h => h, fun _ => rfl⟩
  | true =>
    rw [shown_data hp he]
    exact ⟨fun _ hq h => prefix_of_scan hq h, fun _ hq h => suffix_of_scan hq h, scan_of_clear⟩

theorem spread_text (hp : password ≠ []) (hclear : 0x2022 ∉ password) {events : List Event}
    (h : Spread password (events.map (shown password))) :
    Spread password (events.map Event.text) := by
  obtain ⟨before, first, middle, last, after, a, b, hpieces, ha, hb, hfirst, hlast, heq⟩ := h
  obtain ⟨before, fromFirst, rfl, rfl, hfirsts⟩ := List.map_eq_append_iff.mp hpieces
  obtain ⟨first, afterFirst, rfl, rfl, hmiddles⟩ := List.map_eq_cons_iff.mp hfirsts
  obtain ⟨middle, fromLast, rfl, rfl, hlasts⟩ := List.map_eq_append_iff.mp hmiddles
  obtain ⟨last, after, rfl, rfl, rfl⟩ := List.map_eq_cons_iff.mp hlasts
  rw [heq, List.mem_append, List.mem_append, not_or, not_or] at hclear
  obtain ⟨ha', hmiddle, hb'⟩ := hclear
  have hsame : middle.map (shown password) = middle.map Event.text := by
    refine List.map_congr_left (fun e he => (shown_clear hp e).2.2 (fun hmark => hmiddle ?_))
    exact List.mem_flatten.mpr ⟨_, List.mem_map_of_mem he, hmark⟩
  refine ⟨before.map Event.text, first.text, middle.map Event.text, last.text, after.map Event.text,
    a, b, by simp, ha, hb, (shown_clear hp first).2.1 a ha' hfirst,
    (shown_clear hp last).1 b hb' hlast, ?_⟩
  rw [← hsame]
  exact heq

end Masked

/-! ## The bytes of a stream -/

theorem decodeFrom_append (c : Option Begun) (chunk : List UInt8) : ∃ text, ∀ bytes,
    decodeFrom c (chunk ++ bytes) = text ++ decodeFrom (begun c chunk) bytes := by
  induction chunk generalizing c with
  | nil => exact ⟨[], fun _ => rfl⟩
  | cons b chunk ih =>
    obtain ⟨text, htext⟩ := ih (next c b.toNat).2
    refine ⟨(next c b.toNat).1 ++ text, fun bytes => ?_⟩
    rw [List.cons_append]
    cases c with
    | none => rw [decodeFrom, htext, List.append_assoc]; rfl
    | some c => rw [decodeFrom, htext, List.append_assoc]; rfl

theorem decodeFrom_anew {c : Option Begun} {chunk : List UInt8} (h : startsAnew c chunk = true) :
    decodeFrom c chunk = decodeFrom c [] ++ decode chunk := by
  cases c with
  | none => rfl
  | some c =>
    cases chunk with
    | nil => exact (List.append_nil _).symm
    | cons b chunk =>
      have hout : ¬ (c.low ≤ b.toNat ∧ b.toNat ≤ c.high) := by
        simp [startsAnew] at h
        omega
      have hnext : next (some c) b.toNat = (0xFFFD :: (lead b.toNat).1, (lead b.toNat).2) :=
        if_neg hout
      show (next (some c) b.toNat).1 ++ decodeFrom (next (some c) b.toNat).2 chunk = _
      rw [hnext]
      rfl

theorem flatMap_decode {c : Option Begun} {parts : List (List UInt8)} (h : uncut c parts = true) :
    decodeFrom c [] ++ parts.flatMap decode = decodeFrom c parts.flatten := by
  induction parts generalizing c with
  | nil => exact List.append_nil _
  | cons chunk rest ih =>
    obtain ⟨hanew, hrest⟩ := Bool.and_eq_true_iff.mp h
    obtain ⟨text, htext⟩ := decodeFrom_append c chunk
    have hchunk := htext []
    rw [List.append_nil] at hchunk
    rw [List.flatten_cons, htext, ← ih hrest, List.flatMap_cons, ← List.append_assoc,
      ← decodeFrom_anew hanew, hchunk, List.append_assoc]

theorem uncut_of_append {c : Option Begun} {parts more : List (List UInt8)}
    (h : uncut c (parts ++ more) = true) : uncut c parts = true := by
  induction parts generalizing c with
  | nil => rfl
  | cons chunk rest ih =>
    obtain ⟨hanew, hrest⟩ := Bool.and_eq_true_iff.mp h
    exact Bool.and_eq_true_iff.mpr ⟨hanew, ih hrest⟩

/-! ## What is kept in and what is kept out -/

theorem Apart.hides {events : List Event} (h : Apart password events) (hp : password ≠ [])
    (hclear : 0x2022 ∉ password) : ¬ password <:+: runLog password events := by
  intro hin
  rw [runLog_eq] at hin
  have hall : password <:+: (events.map (shown password)).flatten := by
    rw [← List.flatMap_def]
    exact hin.trans (List.drop_suffix _ _).isInfix
  obtain ⟨piece, hpiece, hin⟩ | hspread := spread_of_infix hp hall
  · obtain ⟨e, he, rfl⟩ := List.mem_map.mp hpiece
    cases hdata : e.isData with
    | true =>
      rw [shown_data hp hdata] at hin
      exact not_infix_scan hp hclear _ _ _ hin
    | false =>
      rw [shown_line hdata] at hin
      exact h.lines e he hdata hin
  · exact h.cuts (spread_text hp hclear hspread)

/-- **When the log keeps the password out, and the rest in.** -/
theorem password_guarded (hp : password ≠ []) (hclear : 0x2022 ∉ password) (events : List Event)
    (hwhole : Whole events) (hapart : Apart password events) (seen : List Event)
    (hseen : seen <+: events) : Guarded password seen := by
  obtain ⟨later, rfl⟩ := hseen
  refine ⟨fun _ _ => Apart.hides password ⟨fun e he => ?_, fun hspread => ?_⟩ hp hclear,
    runLog_eq password seen, fun stream => ?_⟩
  · exact hapart.lines e (List.mem_append_left _ he)
  · refine hapart.cuts ?_
    rw [List.map_append]
    exact hspread.append _
  · have hstream := hwhole stream
    rw [chunks, List.filterMap_append] at hstream
    exact flatMap_decode (uncut_of_append hstream)

/-- The password `ab` is in one chunk, and no other ends with an `a`. -/
def inOneChunk : List Event :=
  [.connecting (units "root") (units "10.0.0.5") (units "22"), .hostKeyLearned (units "k"), .ready,
    .data .stdout [0x78, 0x61, 0x62], .data .stderr [0x62, 0x79], .close (units "0")]

theorem password_guarded_inOneChunk : Guarded (units "ab") inOneChunk := by
  refine password_guarded (units "ab") (by decide) (by decide) inOneChunk ?_ ⟨?_, ?_⟩ inOneChunk
    (List.prefix_refl _)
  · intro stream
    cases stream <;> decide
  · decide +kernel
  · rintro ⟨before, first, middle, last, after, a, b, hpieces, ha, hb, hfirst, -, heq⟩
    have hends : ∀ piece ∈ inOneChunk.map Event.text, ¬ [0x61] <:+ piece := by decide +kernel
    refine hends first (hpieces ▸ by simp) ?_
    rcases a with _ | ⟨x, _ | ⟨y, a⟩⟩
    · exact absurd rfl ha
    · rwa [← (List.cons.inj heq).1] at hfirst
    · have hrest : [] = a ++ (middle.flatten ++ b) := (List.cons.inj (List.cons.inj heq).2).2
      simp [hb] at hrest

/-- The password `ab` comes in two chunks. -/
def cutInTwo : List Event :=
  [.connecting (units "root") (units "10.0.0.5") (units "22"), .hostKeyLearned (units "k"), .ready,
    .data .stdout [0x61], .data .stdout [0x62]]

theorem not_password_guarded : ¬ ∀ password : Text, password ≠ [] → ∀ events seen : List Event,
    seen <+: events → Guarded password seen := by
  intro h
  have hcut := h (units "ab") (by decide) cutInTwo cutInTwo (List.prefix_refl _)
  exact hcut.hidden .stdout (by decide) (by decide +kernel)

end Drac.Central.InstallLog
