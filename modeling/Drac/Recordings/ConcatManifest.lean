import Mathlib.Tactic.Positivity
import Drac.Lib.ConcatScript
import Drac.Lib.IsoTime
import Drac.Recordings.RangeExportCoverage

/-
  The manifest of an export.

  Correspondence (`range-export.helper.ts` ↔ Lean):
    buildConcatManifest   ↔ `buildConcatManifest`, the lines of a part `partLines`
    Number#toFixed(3)     ↔ `toFixed3`, below 10²¹, where it prints no exponent
-/

namespace Drac.Recordings

open ConcatScript

/-! ## The manifest -/

inductive ManifestError where
  /-- `Caminho de gravação com quebra de linha não pode entrar no manifesto: ${recordingId}` -/
  | lineBreak (recordingId : String)
  deriving DecidableEq, Repr

/-- `x.toFixed(3)` of a number not negative: the nearest thousandth, the larger of two. -/
def toFixed3 (x : ℚ) : List Char :=
  let n := ⌊x * 1000 + 1 / 2⌋.toNat
  Nat.toDigits 10 (n / 1000) ++ '.' :: IsoTime.digits 3 (n % 1000)

/-- `/[\r\n]/.test(path)`. -/
def hasLineBreak (path : String) : Bool := path.toList.any (fun c => c = '\r' || c = '\n')

/-- `path.replace(/'/g, "'\\''")`, in quotes. -/
def quotedPath (path : String) : List Char :=
  '\'' :: path.toList.flatMap (fun c => if c = '\'' then ['\'', '\\', '\'', '\''] else [c]) ++ ['\'']

def partLines (part : RangeExportPart) : Except ManifestError (List (List Char)) :=
  if hasLineBreak part.filePath then .error (.lineBreak part.recordingId)
  else .ok (["file ".toList ++ quotedPath part.filePath] ++
    (if 0 < part.inpointSeconds then ["inpoint ".toList ++ toFixed3 part.inpointSeconds] else []) ++
    (if part.outpointSeconds < part.fileDurationSeconds - 1 / 2000 then
      ["outpoint ".toList ++ toFixed3 part.outpointSeconds] else []))

def buildConcatManifest (parts : List RangeExportPart) : Except ManifestError (List Char) := do
  let lines ← parts.mapM partLines
  return ['\n'].intercalate ("ffconcat version 1.0".toList :: lines.flatten ++ [[]])

/-! ## Numbers -/

theorem digits_isDigit (width : Nat) : ∀ n, ∀ c ∈ IsoTime.digits width n, c.isDigit = true := by
  induction width with
  | zero =>
    intro n c hc
    cases hc
  | succ width ih =>
    intro n c hc
    rcases List.mem_append.mp hc with hc | hc
    · exact ih _ c hc
    · rw [List.mem_singleton.mp hc, Nat.isDigit_digitChar]
      exact decide_eq_true (Nat.mod_lt n (by decide))

theorem ofDigitChars_digits (width : Nat) : ∀ n,
    Nat.ofDigitChars 10 (IsoTime.digits width n) 0 = n % 10 ^ width := by
  induction width with
  | zero =>
    intro n
    rw [pow_zero, Nat.mod_one]
    rfl
  | succ width ih =>
    intro n
    rw [IsoTime.digits, Nat.ofDigitChars_append, ih,
      Nat.ofDigitChars_cons_digitChar_of_lt_ten (Nat.mod_lt n (by decide)), Nat.ofDigitChars_nil,
      pow_succ, Nat.mul_comm (10 ^ width), Nat.mod_mul, Nat.add_comm]

def thousandths (x : ℚ) : Nat := ⌊x * 1000 + 1 / 2⌋.toNat

variable {x : ℚ}

theorem thousandths_near (hx : 0 ≤ x) : |(thousandths x : ℚ) / 1000 - x| ≤ 1 / 2000 := by
  have hfloor : 0 ≤ ⌊x * 1000 + 1 / 2⌋ := Int.floor_nonneg.mpr (by linarith)
  have hcast : ((thousandths x : Nat) : ℚ) = (⌊x * 1000 + 1 / 2⌋ : Int) := by
    rw [thousandths, ← Int.cast_natCast, Int.toNat_of_nonneg hfloor]
  have hle := Int.floor_le (x * 1000 + 1 / 2)
  have hlt := Int.lt_floor_add_one (x * 1000 + 1 / 2)
  rw [hcast, abs_le]
  constructor <;> linarith

theorem toFixed3_plain (x : ℚ) : ∀ c ∈ toFixed3 x, c.isDigit = true ∨ c = '.' := by
  intro c hc
  rcases List.mem_append.mp hc with hc | hc
  · exact .inl (Nat.isDigit_of_mem_toDigits (by decide) (by decide) hc)
  · rcases List.mem_cons.mp hc with hc | hc
    · exact .inr hc
    · exact .inl (digits_isDigit 3 _ c hc)

/-- **A printed number is read back** to half a thousandth. -/
theorem toFixed3_read (hx : 0 ≤ x) :
    ∃ s, readSeconds (argument (' ' :: toFixed3 x)) = some s ∧ |s - x| ≤ 1 / 2000 := by
  have hplain : ∀ c ∈ toFixed3 x, isBlank c = false ∧ c ≠ '\'' ∧ c ≠ '\\' := by
    intro c hc
    rcases toFixed3_plain x c hc with hdigit | hdot
    · refine ⟨?_, ?_, ?_⟩
      · by_contra hblank
        simp only [isBlank, Bool.not_eq_false, Bool.or_eq_true, decide_eq_true_eq] at hblank
        rcases hblank with ((rfl | rfl) | rfl) | rfl <;> cases hdigit
      · rintro rfl
        cases hdigit
      · rintro rfl
        cases hdigit
    · rw [hdot]
      decide
  refine ⟨(thousandths x : ℚ) / 1000, ?_, thousandths_near hx⟩
  have hsum : (thousandths x / 1000 * 1000 + thousandths x % 1000 : Nat) = thousandths x :=
    Nat.div_add_mod' (thousandths x) 1000
  have hparts : ((thousandths x / 1000 : Nat) : ℚ) + ((thousandths x % 1000 : Nat) : ℚ) / 1000 =
      (thousandths x : ℚ) / 1000 := by
    rw [eq_div_iff (by norm_num), add_mul, div_mul_cancel₀ _ (by norm_num)]
    exact_mod_cast hsum
  calc readSeconds (argument (' ' :: toFixed3 x))
      = readSeconds (Nat.toDigits 10 (thousandths x / 1000) ++
          '.' :: IsoTime.digits 3 (thousandths x % 1000)) := by
        rw [argument_plain hplain]
        rfl
    _ = some (((thousandths x / 1000 : Nat) : ℚ) + ((thousandths x % 1000 : Nat) : ℚ) / 1000) := by
        rw [readSeconds_decimal Nat.toDigits_ne_nil
          (fun c hc => Nat.isDigit_of_mem_toDigits (by decide) (by decide) hc) (digits_isDigit 3 _),
          Nat.ofDigitChars_ten_toDigits, ofDigitChars_digits, IsoTime.length_digits]
        norm_num
    _ = some ((thousandths x : ℚ) / 1000) := by rw [hparts]

/-! ## What a script is read as -/

/-- An entry is of a part: its path, and its points to half a thousandth, where a point not
written is the end of the file at that side. -/
structure Decodes (part : RangeExportPart) (entry : Entry) : Prop where
  path : entry.path = part.filePath.toList
  inpoint : |entry.inpoint.getD 0 - part.inpointSeconds| ≤ 1 / 2000
  outpoint : |entry.outpoint.getD part.fileDurationSeconds - part.outpointSeconds| ≤ 1 / 2000

/-- What a plan keeps true of its parts: a cut lies within the file, and a point that is
printed is below what `toFixed` prints with an exponent. -/
structure Planned (part : RangeExportPart) : Prop where
  inpoint : 0 ≤ part.inpointSeconds ∧ part.inpointSeconds < 10 ^ 21
  outpoint : 0 ≤ part.outpointSeconds ∧ part.outpointSeconds ≤ part.fileDurationSeconds
  printed : part.outpointSeconds < part.fileDurationSeconds - 1 / 2000 →
    part.outpointSeconds < 10 ^ 21

theorem quotedPath_eq (path : String) : quotedPath path = quoted path.toList := rfl

variable (entries : List Entry)

theorem addLine_file (path : String) :
    addLine entries ("file ".toList ++ quotedPath path) =
      some (entries ++ [{ path := path.toList }]) := by
  rw [addLine, readLine_file, quotedPath_eq, argument_quoted]
  rfl

theorem addLine_inpoint (e : Entry) (hx : 0 ≤ x) :
    ∃ s, addLine (entries ++ [e]) ("inpoint ".toList ++ toFixed3 x) =
      some (entries ++ [{ e with inpoint := some s }]) ∧ |s - x| ≤ 1 / 2000 := by
  obtain ⟨s, hs, hnear⟩ := toFixed3_read hx
  refine ⟨s, ?_, hnear⟩
  rw [addLine, readLine_inpoint, hs, Option.map_some, Option.bind_some]
  simp only [addDirective, List.getLast?_concat, List.dropLast_concat, Option.map_some]

theorem addLine_outpoint (e : Entry) (hx : 0 ≤ x) :
    ∃ s, addLine (entries ++ [e]) ("outpoint ".toList ++ toFixed3 x) =
      some (entries ++ [{ e with outpoint := some s }]) ∧ |s - x| ≤ 1 / 2000 := by
  obtain ⟨s, hs, hnear⟩ := toFixed3_read hx
  refine ⟨s, ?_, hnear⟩
  rw [addLine, readLine_outpoint, hs, Option.map_some, Option.bind_some]
  simp only [addDirective, List.getLast?_concat, List.dropLast_concat, Option.map_some]

variable {part : RangeExportPart}

theorem addLines_inpoint (path : List Char)
    (h : Planned part) :
    ∃ inpoint, (if 0 < part.inpointSeconds then
        ["inpoint ".toList ++ toFixed3 part.inpointSeconds] else []).foldlM addLine
        (entries ++ [{ path := path }]) = some (entries ++ [{ path := path, inpoint := inpoint }]) ∧
      |inpoint.getD 0 - part.inpointSeconds| ≤ 1 / 2000 := by
  by_cases hcut : 0 < part.inpointSeconds
  · obtain ⟨s, hadd, hnear⟩ := addLine_inpoint entries { path := path } h.inpoint.1
    refine ⟨some s, ?_, hnear⟩
    rw [if_pos hcut, List.foldlM_cons, hadd]
    rfl
  · have hzero : part.inpointSeconds = 0 := le_antisymm (not_lt.mp hcut) h.inpoint.1
    refine ⟨none, ?_, ?_⟩
    · rw [if_neg hcut]
      rfl
    · rw [hzero]
      norm_num

theorem addLines_outpoint (e : Entry) (hnone : e.outpoint = none)
    (h : Planned part) :
    ∃ outpoint, (if part.outpointSeconds < part.fileDurationSeconds - 1 / 2000 then
        ["outpoint ".toList ++ toFixed3 part.outpointSeconds] else []).foldlM addLine
        (entries ++ [e]) = some (entries ++ [{ e with outpoint := outpoint }]) ∧
      |outpoint.getD part.fileDurationSeconds - part.outpointSeconds| ≤ 1 / 2000 := by
  by_cases hcut : part.outpointSeconds < part.fileDurationSeconds - 1 / 2000
  · obtain ⟨s, hadd, hnear⟩ := addLine_outpoint entries e h.outpoint.1
    refine ⟨some s, ?_, hnear⟩
    rw [if_pos hcut, List.foldlM_cons, hadd]
    rfl
  · refine ⟨none, ?_, ?_⟩
    · rw [if_neg hcut, ← hnone]
      rfl
    · have hle := h.outpoint.2
      rw [Option.getD_none, abs_le]
      constructor <;> linarith

/-- **The lines of a part** add the entry it is decoded from. -/
theorem addLines_part (h : Planned part)
    {ls : List (List Char)} (hls : partLines part = .ok ls) :
    ∃ e, ls.foldlM addLine entries = some (entries ++ [e]) ∧ Decodes part e := by
  obtain ⟨inpoint, hin, hinNear⟩ := addLines_inpoint entries part.filePath.toList h
  obtain ⟨outpoint, hout, houtNear⟩ := addLines_outpoint entries
    { path := part.filePath.toList, inpoint := inpoint } rfl h
  refine ⟨{ path := part.filePath.toList, inpoint := inpoint, outpoint := outpoint }, ?_,
    rfl, hinNear, houtNear⟩
  unfold partLines at hls
  split at hls
  · cases hls
  · cases hls
    rw [List.foldlM_append, List.foldlM_append, List.foldlM_cons, addLine_file]
    show ((_ : Option (List Entry)) >>= _) >>= _ = _
    exact (congrArg (· >>= _) hin).trans hout

/-! ## The manifest read -/

/-- One line. -/
def Unbroken (l : List Char) : Prop := '\n' ∉ l ∧ '\r' ∉ l

instance decidableUnbroken (l : List Char) : Decidable (Unbroken l) :=
  inferInstanceAs (Decidable (_ ∧ _))

theorem Unbroken.append {l m : List Char} (hl : Unbroken l) (hm : Unbroken m) :
    Unbroken (l ++ m) := by
  constructor
  · intro hmem
    exact (List.mem_append.mp hmem).elim hl.1 hm.1
  · intro hmem
    exact (List.mem_append.mp hmem).elim hl.2 hm.2

theorem quotedPath_chars {path : String} {c : Char} (hc : c ∈ quotedPath path) :
    c ∈ path.toList ∨ c = '\'' ∨ c = '\\' := by
  rw [quotedPath, List.cons_append, List.mem_cons, List.mem_append, List.mem_singleton,
    List.mem_flatMap] at hc
  rcases hc with rfl | ⟨d, hd, hc⟩ | rfl
  · exact .inr (.inl rfl)
  · split at hc
    · simp only [List.mem_cons, List.not_mem_nil, or_false] at hc
      rcases hc with rfl | rfl | rfl | rfl
      all_goals simp
    · rw [List.mem_singleton.mp hc]
      exact .inl hd
  · exact .inr (.inl rfl)

theorem quotedPath_unbroken {path : String} (h : hasLineBreak path = false) :
    Unbroken (quotedPath path) := by
  rw [hasLineBreak, List.any_eq_false] at h
  constructor
  · intro hmem
    rcases quotedPath_chars hmem with hc | hc | hc
    · exact h '\n' hc (by decide)
    all_goals cases hc
  · intro hmem
    rcases quotedPath_chars hmem with hc | hc | hc
    · exact h '\r' hc (by decide)
    all_goals cases hc

theorem toFixed3_unbroken (x : ℚ) : Unbroken (toFixed3 x) := by
  constructor
  all_goals
    intro hmem
    rcases toFixed3_plain x _ hmem with h | h
    all_goals cases h

theorem partLines_unbroken {ls : List (List Char)}
    (hls : partLines part = .ok ls) : ∀ l ∈ ls, Unbroken l := by
  unfold partLines at hls
  split at hls
  · cases hls
  · next hpath =>
    cases hls
    intro l hl
    rw [List.mem_append, List.mem_append, List.mem_singleton] at hl
    rcases hl with (rfl | hl) | hl
    · exact Unbroken.append (by decide) (quotedPath_unbroken (Bool.eq_false_iff.mpr hpath))
    · obtain ⟨-, hl⟩ := List.mem_ite_nil_right.mp hl
      rw [List.mem_singleton.mp hl]
      exact Unbroken.append (by decide) (toFixed3_unbroken _)
    · obtain ⟨-, hl⟩ := List.mem_ite_nil_right.mp hl
      rw [List.mem_singleton.mp hl]
      exact Unbroken.append (by decide) (toFixed3_unbroken _)

variable {parts : List RangeExportPart}

theorem partLines_all :
    (∀ p ∈ parts, hasLineBreak p.filePath = false) →
    ∃ lss, parts.mapM partLines = .ok lss ∧
      List.Forall₂ (fun p ls => partLines p = .ok ls) parts lss := by
  induction parts with
  | nil =>
    intro _
    exact ⟨[], rfl, .nil⟩
  | cons part parts ih =>
    intro h
    obtain ⟨lss, hlss, heach⟩ := ih (fun p hp => h p (List.mem_cons_of_mem part hp))
    obtain ⟨ls, hls⟩ : ∃ ls, partLines part = .ok ls :=
      ⟨_, if_neg (Bool.eq_false_iff.mp (h part List.mem_cons_self))⟩
    refine ⟨ls :: lss, ?_, .cons hls heach⟩
    rw [List.mapM_cons, hls, hlss]
    rfl

theorem partLines_refused :
    parts.find? (fun p => hasLineBreak p.filePath) = some part →
    parts.mapM partLines = .error (.lineBreak part.recordingId) := by
  induction parts with
  | nil =>
    intro h
    cases h
  | cons head parts ih =>
    intro h
    rw [List.mapM_cons]
    rw [List.find?_cons] at h
    cases hbreak : hasLineBreak head.filePath with
    | true =>
      rw [hbreak] at h
      cases h
      rw [partLines, if_pos hbreak]
      rfl
    | false =>
      rw [hbreak] at h
      rw [partLines, if_neg (Bool.eq_false_iff.mp hbreak), ih h]
      rfl

theorem addLines_parts {lss : List (List (List Char))}
    (hlss : List.Forall₂ (fun p ls => partLines p = .ok ls) parts lss)
    (hplanned : ∀ p ∈ parts, Planned p) : ∀ (entries : List Entry),
    ∃ es, lss.flatten.foldlM addLine entries = some (entries ++ es) ∧
      List.Forall₂ Decodes parts es := by
  induction hlss with
  | nil =>
    intro entries
    refine ⟨[], ?_, .nil⟩
    rw [List.append_nil]
    rfl
  | @cons part ls parts lss hls _ ih =>
    intro entries
    obtain ⟨e, hadd, he⟩ := addLines_part entries (hplanned part List.mem_cons_self) hls
    obtain ⟨es, hrest, hes⟩ := ih (fun p hp => hplanned p (List.mem_cons_of_mem part hp))
      (entries ++ [e])
    refine ⟨e :: es, ?_, .cons he hes⟩
    rw [List.flatten_cons, List.foldlM_append, hadd]
    show lss.flatten.foldlM addLine (entries ++ [e]) = _
    rw [hrest, List.append_assoc]
    rfl

/-- **A manifest is read back** as one entry of each part. -/
theorem buildConcatManifest_read (hplanned : ∀ p ∈ parts, Planned p)
    (hpaths : ∀ p ∈ parts, hasLineBreak p.filePath = false) :
    ∃ text entries, buildConcatManifest parts = .ok text ∧ readScript text = some entries ∧
      List.Forall₂ Decodes parts entries := by
  obtain ⟨lss, hlss, heach⟩ := partLines_all hpaths
  obtain ⟨es, hread, hes⟩ := addLines_parts heach hplanned []
  refine ⟨['\n'].intercalate ("ffconcat version 1.0".toList :: lss.flatten ++ [[]]), es, ?_, ?_, hes⟩
  · rw [buildConcatManifest, hlss]
    rfl
  · have hunbroken : ∀ l ∈ "ffconcat version 1.0".toList :: lss.flatten ++ [[]], Unbroken l := by
      intro l hl
      rw [List.cons_append, List.mem_cons, List.mem_append, List.mem_singleton] at hl
      rcases hl with rfl | hl | rfl
      · decide
      · obtain ⟨ls, hmem, hl⟩ := List.mem_flatten.mp hl
        obtain ⟨i, hi, rfl⟩ := List.getElem_of_mem hmem
        have hlen := heach.length_eq
        exact partLines_unbroken (heach.get (by omega) hi) l hl
      · decide
    rw [readScript, lines_intercalate (by simp) hunbroken, List.cons_append, List.foldlM_cons]
    show (lss.flatten ++ [[]]).foldlM addLine [] = some es
    rw [List.foldlM_append, hread]
    rfl

/-! ## The parts of a plan -/

/-- What a plan is made from: instants that are dates, and a margin that is no more than
`10 ^ 20` seconds; those who call it give at most thirty. -/
structure PlanRangeExportInput.Dated (input : PlanRangeExportInput) : Prop where
  fromAt : ∀ t, input.fromAt = some t → isDate t = true
  toAt : ∀ t, input.toAt = some t → isDate t = true
  startedAt : ∀ raw ∈ input.segments, ∀ t, raw.startedAt = some t → isDate t = true
  margin : input.copySafetySeconds.getD 2 ≤ 10 ^ 20

theorem isDate_bounds {t : Int} (h : isDate t = true) : |(t : ℚ)| ≤ 8640000000000000 := by
  have hle : t.natAbs ≤ 8640000000000000 := of_decide_eq_true h
  rw [← Int.cast_abs, Int.abs_eq_natAbs]
  exact_mod_cast hle

section Planned

variable {fromMs toMs : Int} {margin : ℚ} {c : Candidate}

theorem roundSeconds_mono {x y : ℚ} (h : x ≤ y) : roundSeconds x ≤ roundSeconds y :=
  div_le_div_of_nonneg_right (Int.cast_le.mpr (roundMs_mono h)) (by norm_num)

theorem roundSeconds_zero : roundSeconds 0 = 0 := by
  rw [roundSeconds, ← Int.cast_zero, roundMs_intCast]
  norm_num

theorem cutIn_nonneg (fromMs : Int) (margin : ℚ) (c : Candidate) : 0 ≤ cutIn fromMs margin c := by
  unfold cutIn
  split
  · exact le_max_left _ _
  · exact le_refl 0

theorem cutIn_le (fromMs : Int) (c : Candidate) (hm : 0 ≤ margin) : cutIn fromMs margin c ≤ rawIn fromMs c := by
  have hraw : 0 ≤ rawIn fromMs c := le_max_left _ _
  unfold cutIn
  split
  · exact max_le hraw (sub_le_self _ hm)
  · exact hraw

theorem cutOut_le (toMs : Int) (margin : ℚ) (c : Candidate) : cutOut toMs margin c ≤ fileDuration c := by
  unfold cutOut
  split
  · exact min_le_left _ _
  · exact le_refl _

theorem cutOut_bound (h : cutOut toMs margin c < fileDuration c) :
    cutOut toMs margin c ≤ toMs - c.startMs + margin := by
  unfold cutOut at h ⊢
  split
  · have hraw : rawOut toMs c ≤ toMs - c.startMs := min_le_right _ _
    exact (min_le_right _ _).trans (by linarith)
  · next hwhole =>
    rw [if_neg hwhole] at h
    exact absurd h (lt_irrefl _)

theorem roundMs_le_add (x : ℚ) : (roundMs x : ℚ) ≤ x + 1 / 2 := Int.floor_le _

theorem addPart_planned (hm : 0 ≤ margin) (hmargin : margin ≤ 10 ^ 23) (hint : fromMs < toMs)
    (hfrom : isDate fromMs = true) (hto : isDate toMs = true) (hstart : isDate c.startMs = true)
    (hc : Overlaps fromMs toMs c) {st : PartsState} (hst : ∀ p ∈ st.parts, Planned p) :
    ∀ p ∈ (addPart fromMs toMs margin st c).parts, Planned p := by
  have hlt := cutIn_lt_cutOut hm hint hc
  have hin := cutIn_nonneg fromMs margin c
  obtain ⟨-, hfromHi⟩ := abs_le.mp (isDate_bounds hfrom)
  obtain ⟨-, htoHi⟩ := abs_le.mp (isDate_bounds hto)
  obtain ⟨hstartLo, -⟩ := abs_le.mp (isDate_bounds hstart)
  have hkeep : ¬ cutOut toMs margin c - cutIn fromMs margin c ≤ 0 := by linarith
  intro p hp
  simp only [addPart, if_neg hkeep, List.mem_append, List.mem_singleton] at hp
  rcases hp with hp | rfl
  · exact hst p hp
  · refine ⟨⟨?_, ?_⟩, ⟨?_, ?_⟩, ?_⟩
    · exact roundSeconds_zero ▸ roundSeconds_mono hin
    · have hraw : rawIn fromMs c ≤ 8640000000000000 + 8640000000000000 :=
        max_le (by norm_num) (by linarith)
      have hround := roundMs_le_add (cutIn fromMs margin c)
      have hle := cutIn_le fromMs c hm
      show roundSeconds _ < _
      rw [roundSeconds, div_lt_iff₀ (by norm_num)]
      norm_num
      linarith
    · exact roundSeconds_zero ▸ roundSeconds_mono (hin.trans hlt.le)
    · exact roundSeconds_mono (cutOut_le toMs margin c)
    · intro hcut
      have hwhole : cutOut toMs margin c < fileDuration c := by
        rcases (cutOut_le toMs margin c).lt_or_eq with h | h
        · exact h
        · exfalso
          have hcut' : roundSeconds (cutOut toMs margin c) <
              roundSeconds (fileDuration c) - 1 / 2000 := hcut
          rw [h] at hcut'
          linarith
      have hround := roundMs_le_add (cutOut toMs margin c)
      have hle := cutOut_bound hwhole
      show roundSeconds _ < _
      rw [roundSeconds, div_lt_iff₀ (by norm_num)]
      norm_num at hmargin ⊢
      linarith

end Planned

theorem marginMs_le {input : PlanRangeExportInput} (h : input.Dated)
    (strategy : RangeExportStrategy) : marginMs input strategy ≤ 10 ^ 23 := by
  cases strategy with
  | copy =>
    have hmax : max 0 (input.copySafetySeconds.getD 2) ≤ 10 ^ 20 := max_le (by norm_num) h.margin
    show max 0 (input.copySafetySeconds.getD 2) * 1000 ≤ _
    linarith
  | transcode => exact by norm_num [marginMs]

/-- **Every part of a plan** is one that is read back. -/
theorem planRangeExport_planned {order : LocaleOrder} {input : PlanRangeExportInput}
    (hdated : input.Dated) {plan : RangeExportPlan} (hplan : planRangeExport order input = .ok plan) :
    ∀ p ∈ plan.parts, Planned p := by
  obtain ⟨fromMs, hfrom⟩ : ∃ t, input.fromAt = some t := by
    cases h : input.fromAt with
    | none =>
      rw [planRangeExport, h] at hplan
      cases hplan
    | some t => exact ⟨t, rfl⟩
  obtain ⟨toMs, hto⟩ : ∃ t, input.toAt = some t := by
    cases h : input.toAt with
    | none =>
      rw [planRangeExport, hfrom, h] at hplan
      cases hplan
    | some t => exact ⟨t, rfl⟩
  obtain ⟨hint, hparts, -⟩ := planRangeExport_ok hplan hfrom hto
  rw [hparts, planCut]
  have hsegments : ∀ c ∈ selectSegments order input fromMs toMs,
      Overlaps fromMs toMs c ∧ isDate c.startMs = true := by
    intro c hc
    obtain ⟨raw, hraw, hof⟩ := mem_candidatesOf.mp (List.mem_of_mem_take hc)
    obtain ⟨-, hstart, -, hover⟩ := candidateOf_some hof
    exact ⟨hover, hdated.startedAt raw hraw _ hstart⟩
  -- over the segments selected, one part of each
  have hfold : ∀ (selected : List Candidate) (st : PartsState),
      (∀ c ∈ selected, Overlaps fromMs toMs c ∧ isDate c.startMs = true) →
      (∀ p ∈ st.parts, Planned p) →
      ∀ p ∈ (selected.foldl (addPart fromMs toMs (planMargin order input fromMs toMs)) st).parts,
        Planned p := by
    intro selected
    induction selected with
    | nil =>
      intro st _ hst
      exact hst
    | cons c rest ih =>
      intro st hall hst
      obtain ⟨hover, hstart⟩ := hall c List.mem_cons_self
      exact ih _ (fun d hd => hall d (List.mem_cons_of_mem c hd))
        (addPart_planned (marginMs_nonneg _ _) (marginMs_le hdated _) hint (hdated.fromAt _ hfrom)
          (hdated.toAt _ hto) hstart hover hst)
  exact hfold _ _ hsegments (fun p hp => absurd hp List.not_mem_nil)

/-- **A manifest says what the plan says**: for all parts a plan can have, whatever the
characters of their paths, and so for every plan; a path with a line break makes none. -/
theorem manifest_decodes :
    (∀ parts : List RangeExportPart, (∀ p ∈ parts, Planned p) →
      (∀ p ∈ parts, hasLineBreak p.filePath = false) →
      ∃ text entries, buildConcatManifest parts = .ok text ∧ readScript text = some entries ∧
        List.Forall₂ Decodes parts entries) ∧
    (∀ (parts : List RangeExportPart) (part : RangeExportPart),
      parts.find? (fun p => hasLineBreak p.filePath) = some part →
      buildConcatManifest parts = .error (.lineBreak part.recordingId)) ∧
    (∀ (order : LocaleOrder) (input : PlanRangeExportInput) (plan : RangeExportPlan),
      input.Dated → planRangeExport order input = .ok plan → ∀ p ∈ plan.parts, Planned p) := by
  refine ⟨fun parts => buildConcatManifest_read, ?_, ?_⟩
  · intro parts part hfind
    rw [buildConcatManifest, partLines_refused hfind]
    rfl
  · intro order input plan hdated hplan
    exact planRangeExport_planned hdated hplan

/-! Two segments, of a path in which quotes and a backslash take turns. -/

def quotedNames : PlanRangeExportInput :=
  tenSeconds [cameraSegment "câmera 'norte'\\' 1" 0 15000, cameraSegment "'\\''" 15000 20000]

theorem quotedNames_dated : quotedNames.Dated where
  fromAt t h := by
    cases h
    decide
  toAt t h := by
    cases h
    decide
  startedAt raw hraw t h := by
    simp only [quotedNames, tenSeconds, List.mem_cons, List.not_mem_nil, or_false] at hraw
    rcases hraw with rfl | rfl
    all_goals
      cases h
      decide
  margin := by
    show (2 : ℚ) ≤ 10 ^ 20
    norm_num

theorem manifest_decodes_quoted :
    ∃ plan text entries, planRangeExport byCodePoint quotedNames = .ok plan ∧
      buildConcatManifest plan.parts = .ok text ∧ readScript text = some entries ∧
      List.Forall₂ Decodes plan.parts entries := by
  have hmade : (planRangeExport byCodePoint quotedNames).toOption.map
      (fun plan => plan.parts.map (·.filePath)) =
      some ["câmera 'norte'\\' 1.mp4", "'\\''.mp4"] := by
    decide +kernel
  cases hplan : planRangeExport byCodePoint quotedNames with
  | error e =>
    rw [hplan] at hmade
    cases hmade
  | ok plan =>
    rw [hplan] at hmade
    simp only [Except.toOption, Option.map_some, Option.some.injEq] at hmade
    have hpaths : ∀ p ∈ plan.parts, hasLineBreak p.filePath = false := by
      intro p hp
      have hmem := List.mem_map_of_mem (f := (·.filePath)) hp
      rw [hmade] at hmem
      revert hmem
      generalize p.filePath = path
      rw [List.mem_cons, List.mem_singleton]
      rintro (rfl | rfl)
      all_goals decide
    obtain ⟨text, entries, hread⟩ := manifest_decodes.1 plan.parts
      (manifest_decodes.2.2 byCodePoint quotedNames plan quotedNames_dated hplan) hpaths
    exact ⟨plan, text, entries, rfl, hread⟩

end Drac.Recordings
