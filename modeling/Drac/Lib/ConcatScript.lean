import Mathlib.Data.Rat.Defs
import Mathlib.Data.List.Basic

/-
  Scripts of the `concat` demuxer.

  A script is text with one directive a line. Empty lines and those of a `#` are ignored. A
  `file` begins an entry, and `inpoint` and `outpoint` are of the entry before them. In an
  argument a backslash quotes the character after it, and `'` all characters up to the next
  `'`; what is not quoted ends at a blank.

    `lines_intercalate`    the lines of a script are those it was made of.
-/

namespace ConcatScript

def isBlank (c : Char) : Bool := c = ' ' || c = '\t' || c = '\r' || c = '\n'

/-! ## Arguments -/

/-- The text up to a blank, in quotes or not, and what follows it. -/
def token : Bool → List Char → List Char × List Char
  | _, [] => ([], [])
  | true, c :: rest =>
    if c = '\'' then token false rest
    else (c :: (token true rest).1, (token true rest).2)
  | false, [c] => if c = '\'' || isBlank c then ([], [c].filter isBlank) else ([c], [])
  | false, c :: d :: rest =>
    if c = '\\' then (d :: (token false rest).1, (token false rest).2)
    else if c = '\'' then token true (d :: rest)
    else if isBlank c then ([], c :: d :: rest)
    else (c :: (token false (d :: rest)).1, (token false (d :: rest)).2)

def argument (rest : List Char) : List Char := (token false (rest.dropWhile isBlank)).1

/-- A quote within quotes: out of them, behind a backslash, and in them again. -/
def escapeQuote (c : Char) : List Char := if c = '\'' then ['\'', '\\', '\'', '\''] else [c]

def quoted (text : List Char) : List Char := '\'' :: text.flatMap escapeQuote ++ ['\'']

section

attribute [local simp] token

theorem token_escaped (text : List Char) :
    token true (text.flatMap escapeQuote ++ ['\'']) = (text, []) := by
  induction text with
  | nil => rfl
  | cons c text ih =>
    rw [List.flatMap_cons, List.append_assoc]
    by_cases hc : c = '\''
    · subst hc
      have hnext : token true ('\'' :: '\\' :: '\'' :: '\'' :: (text.flatMap escapeQuote ++ ['\''])) =
          ('\'' :: (token true (text.flatMap escapeQuote ++ ['\''])).1,
            (token true (text.flatMap escapeQuote ++ ['\''])).2) := by
        cases htail : text.flatMap escapeQuote ++ ['\''] with
        | nil => simp at htail
        | cons d rest => simp
      exact hnext.trans (by rw [ih])
    · have hplain : escapeQuote c = [c] := if_neg hc
      rw [hplain, List.singleton_append, token, if_neg hc, ih]

/-- **A quoted text is read back.** -/
theorem argument_quoted (text : List Char) : argument (' ' :: quoted text) = text := by
  have hopen : (' ' :: quoted text).dropWhile isBlank = quoted text := rfl
  rw [argument, hopen, quoted, List.cons_append]
  have htoken : token false ('\'' :: (text.flatMap escapeQuote ++ ['\''])) =
      token true (text.flatMap escapeQuote ++ ['\'']) := by
    cases htail : text.flatMap escapeQuote ++ ['\''] with
    | nil => simp at htail
    | cons d rest => simp
  rw [htoken, token_escaped]

theorem argument_plain {text : List Char}
    (h : ∀ c ∈ text, isBlank c = false ∧ c ≠ '\'' ∧ c ≠ '\\') : argument (' ' :: text) = text := by
  have htoken : ∀ text : List Char, (∀ c ∈ text, isBlank c = false ∧ c ≠ '\'' ∧ c ≠ '\\') →
      token false text = (text, []) := by
    intro text
    induction text with
    | nil => intro _; rfl
    | cons c rest ih =>
      intro h
      obtain ⟨hblank, hquote, hslash⟩ := h c List.mem_cons_self
      have hrest := ih (fun d hd => h d (List.mem_cons_of_mem c hd))
      cases rest with
      | nil => simp [hblank, hquote]
      | cons d rest =>
        rw [token, if_neg hslash, if_neg hquote, if_neg (by simp [hblank]), hrest]
  have hopen : (' ' :: text).dropWhile isBlank = text := by
    show text.dropWhile isBlank = text
    cases text with
    | nil => rfl
    | cons c rest => simp [(h c List.mem_cons_self).1]
  rw [argument, hopen, htoken text h]

end

/-! ## Directives -/

/-- A duration in seconds, with a fraction or without. -/
def readSeconds (cs : List Char) : Option ℚ :=
  let whole := cs.takeWhile Char.isDigit
  if whole = [] then none
  else
    match cs.dropWhile Char.isDigit with
    | [] => some (Nat.ofDigitChars 10 whole 0)
    | c :: fraction =>
      if c = '.' ∧ fraction.all Char.isDigit then
        some (Nat.ofDigitChars 10 whole 0 + Nat.ofDigitChars 10 fraction 0 / 10 ^ fraction.length)
      else none

theorem readSeconds_decimal {whole fraction : List Char} (hne : whole ≠ [])
    (hwhole : ∀ c ∈ whole, c.isDigit = true) (hfraction : ∀ c ∈ fraction, c.isDigit = true) :
    readSeconds (whole ++ '.' :: fraction) = some ((Nat.ofDigitChars 10 whole 0 : ℚ) +
      (Nat.ofDigitChars 10 fraction 0 : ℚ) / 10 ^ fraction.length) := by
  have htake : (whole ++ '.' :: fraction).takeWhile Char.isDigit = whole := by
    rw [List.takeWhile_append_of_pos hwhole, List.takeWhile_cons_of_neg (by decide), List.append_nil]
  have hdrop : (whole ++ '.' :: fraction).dropWhile Char.isDigit = '.' :: fraction := by
    rw [List.dropWhile_append_of_pos hwhole, List.dropWhile_cons_of_neg (by decide)]
  have hall : fraction.all Char.isDigit = true := List.all_eq_true.mpr hfraction
  simp only [readSeconds, htake, hdrop, if_neg hne, hall, and_self, if_true]

inductive Directive where
  | version
  | file (path : List Char)
  | inpoint (seconds : ℚ)
  | outpoint (seconds : ℚ)
  deriving DecidableEq

/-- The directive of a line, if it has one; `none` where the line is no directive. -/
def readLine (line : List Char) : Option (Option Directive) :=
  let body := line.dropWhile isBlank
  if body = [] ∨ body.head? = some '#' then some none
  else
    let word := body.takeWhile (fun c => !isBlank c)
    let rest := body.dropWhile (fun c => !isBlank c)
    if word = "ffconcat".toList then
      if rest = " version 1.0".toList then some (some .version) else none
    else if word = "file".toList then some (some (.file (argument rest)))
    else if word = "inpoint".toList then (readSeconds (argument rest)).map (fun s => some (.inpoint s))
    else if word = "outpoint".toList then
      (readSeconds (argument rest)).map (fun s => some (.outpoint s))
    else none

structure Entry where
  path : List Char
  inpoint : Option ℚ := none
  outpoint : Option ℚ := none
  deriving DecidableEq

/-- The entries with a directive added; a point before any file is an error. -/
def addDirective (entries : List Entry) : Directive → Option (List Entry)
  | .version => some entries
  | .file path => some (entries ++ [{ path := path }])
  | .inpoint seconds =>
    entries.getLast?.map (fun e => entries.dropLast ++ [{ e with inpoint := some seconds }])
  | .outpoint seconds =>
    entries.getLast?.map (fun e => entries.dropLast ++ [{ e with outpoint := some seconds }])

def addLine (entries : List Entry) (line : List Char) : Option (List Entry) :=
  (readLine line).bind (fun directive =>
    match directive with
    | none => some entries
    | some directive => addDirective entries directive)

def lines (text : List Char) : List (List Char) :=
  (text.splitOn '\n').flatMap (fun line => line.splitOn '\r')

def readScript (text : List Char) : Option (List Entry) := (lines text).foldlM addLine []

theorem lines_intercalate {ls : List (List Char)} (hne : ls ≠ [])
    (h : ∀ l ∈ ls, '\n' ∉ l ∧ '\r' ∉ l) : lines (['\n'].intercalate ls) = ls := by
  rw [lines, List.splitOn_intercalate '\n' (fun l hl => (h l hl).1) hne]
  clear hne
  induction ls with
  | nil => rfl
  | cons l ls ih =>
    rw [List.flatMap_cons, List.splitOn_eq_singleton (h l List.mem_cons_self).2,
      ih (fun m hm => h m (List.mem_cons_of_mem l hm))]
    rfl

theorem readLine_file {rest : List Char} :
    readLine ("file ".toList ++ rest) = some (some (.file (argument (' ' :: rest)))) := rfl

theorem readLine_inpoint {rest : List Char} : readLine ("inpoint ".toList ++ rest) =
    (readSeconds (argument (' ' :: rest))).map (fun s => some (.inpoint s)) := rfl

theorem readLine_outpoint {rest : List Char} : readLine ("outpoint ".toList ++ rest) =
    (readSeconds (argument (' ' :: rest))).map (fun s => some (.outpoint s)) := rfl

end ConcatScript
