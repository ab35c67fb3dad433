import Drac.Lib.Json

/-
  Values of JavaScript and the text they are kept as.

  `stringify T gap depth v` is `JSON.stringify(v, null, gap)` where `v` stands `depth`
  levels deep: with no gap the text is compact, with a gap every item has a line of its
  own. `parse` is `JSON.parse`. Numbers are of any type ν; `NumberText ν` says how one is
  written and read. A `Date` is held by its ISO text: it is written as that text and so
  comes back as a string, which `plain` says on values. The members of an object stand in
  the object's own order.
-/

namespace JsonLayout

open Json (isBlank skip quote readText readText_quote skip_cons)

def isNumeral (c : Char) : Bool :=
  c.isDigit || c = '-' || c = '+' || c = '.' || c = 'e' || c = 'E'

/-- How the numbers of a type are written. -/
structure NumberText (ν : Type) where
  write : ν → List Char
  read : List Char → Option ν
  numeral : ∀ n, ∀ c ∈ write n, isNumeral c = true
  write_ne : ∀ n, write n ≠ []
  read_write : ∀ n, read (write n) = some n

/-- A value before it is written, dates included. -/
inductive JsValue (ν : Type) where
  | null
  | bool (b : Bool)
  | num (n : ν)
  | str (s : List Char)
  | date (iso : List Char)
  | arr (items : List (JsValue ν))
  | obj (members : List (List Char × JsValue ν))

variable {ν : Type}

/-! ## Members -/

/-- `value.name`, `none` for `undefined`. -/
def field (members : List (List Char × JsValue ν)) (name : List Char) : Option (JsValue ν) :=
  (members.find? (fun m => m.1 = name)).map Prod.snd

/-! ## Dates as texts -/

mutual

/-- The value as JSON knows it. -/
def plain : JsValue ν → JsValue ν
  | .null => .null
  | .bool b => .bool b
  | .num n => .num n
  | .str s => .str s
  | .date iso => .str iso
  | .arr items => .arr (plainItems items)
  | .obj members => .obj (plainMembers members)

def plainItems : List (JsValue ν) → List (JsValue ν)
  | [] => []
  | v :: vs => plain v :: plainItems vs

def plainMembers : List (List Char × JsValue ν) → List (List Char × JsValue ν)
  | [] => []
  | (k, v) :: ms => (k, plain v) :: plainMembers ms

end

/-! ## Writing -/

/-- The line break before an item `depth` levels deep. -/
def lineBreak (gap depth : Nat) : List Char :=
  if gap = 0 then [] else '\n' :: List.replicate (gap * depth) ' '

/-- What stands after the colon of a member. -/
def space (gap : Nat) : List Char := if gap = 0 then [] else [' ']

mutual

/-- `JSON.stringify(value, null, gap)`. -/
def stringify (T : NumberText ν) (gap depth : Nat) : JsValue ν → List Char
  | .null => ['n', 'u', 'l', 'l']
  | .bool true => ['t', 'r', 'u', 'e']
  | .bool false => ['f', 'a', 'l', 's', 'e']
  | .num n => T.write n
  | .str s => quote s
  | .date iso => quote iso
  | .arr [] => ['[', ']']
  | .arr (v :: vs) => '[' :: (lineBreak gap (depth + 1) ++ stringifyItems T gap depth (v :: vs))
  | .obj [] => ['{', '}']
  | .obj (m :: ms) => '{' :: (lineBreak gap (depth + 1) ++ stringifyMembers T gap depth (m :: ms))

def stringifyItems (T : NumberText ν) (gap depth : Nat) : List (JsValue ν) → List Char
  | [] => []
  | [v] => stringify T gap (depth + 1) v ++ (lineBreak gap depth ++ [']'])
  | v :: w :: rest =>
    stringify T gap (depth + 1) v ++
      ',' :: (lineBreak gap (depth + 1) ++ stringifyItems T gap depth (w :: rest))

def stringifyMembers (T : NumberText ν) (gap depth : Nat) :
    List (List Char × JsValue ν) → List Char
  | [] => []
  | [(k, v)] =>
    quote k ++ ':' :: (space gap ++
      (stringify T gap (depth + 1) v ++ (lineBreak gap depth ++ ['}'])))
  | (k, v) :: m :: rest =>
    quote k ++ ':' :: (space gap ++ (stringify T gap (depth + 1) v ++
      ',' :: (lineBreak gap (depth + 1) ++ stringifyMembers T gap depth (m :: rest))))

end

/-! ## Reading -/

def readNumber (T : NumberText ν) (cs : List Char) : Option (JsValue ν × List Char) :=
  (T.read (cs.takeWhile isNumeral)).map (fun n => (.num n, cs.dropWhile isNumeral))

def readWord (w : List Char) (v : JsValue ν) (cs : List Char) : Option (JsValue ν × List Char) :=
  if w <+: cs then some (v, cs.drop w.length) else none

mutual

/-- A value and what follows it. The fuel bounds the values read on the way. -/
def readValue (T : NumberText ν) : Nat → List Char → Option (JsValue ν × List Char)
  | 0, _ => none
  | fuel + 1, cs =>
    match skip cs with
    | [] => none
    | c :: rest =>
      if c = '"' then (readText rest).map (fun r => (.str r.1, r.2))
      else if c = '[' then
        if (skip rest).head? = some ']' then some (.arr [], (skip rest).tail)
        else (readItems T fuel rest).map (fun r => (.arr r.1, r.2))
      else if c = '{' then
        if (skip rest).head? = some '}' then some (.obj [], (skip rest).tail)
        else (readMembers T fuel rest).map (fun r => (.obj r.1, r.2))
      else if c = 'n' then readWord ['u', 'l', 'l'] .null rest
      else if c = 't' then readWord ['r', 'u', 'e'] (.bool true) rest
      else if c = 'f' then readWord ['a', 'l', 's', 'e'] (.bool false) rest
      else readNumber T (c :: rest)

def readItems (T : NumberText ν) : Nat → List Char → Option (List (JsValue ν) × List Char)
  | 0, _ => none
  | fuel + 1, cs =>
    (readValue T fuel cs).bind (fun v =>
      match skip v.2 with
      | [] => none
      | c :: rest =>
        if c = ',' then (readItems T fuel rest).map (fun r => (v.1 :: r.1, r.2))
        else if c = ']' then some ([v.1], rest)
        else none)

def readMembers (T : NumberText ν) :
    Nat → List Char → Option (List (List Char × JsValue ν) × List Char)
  | 0, _ => none
  | fuel + 1, cs =>
    if (skip cs).head? = some '"' then
      (readText (skip cs).tail).bind (fun k =>
        if (skip k.2).head? = some ':' then
          (readValue T fuel (skip k.2).tail).bind (fun v =>
            match skip v.2 with
            | [] => none
            | c :: rest =>
              if c = ',' then (readMembers T fuel rest).map (fun r => ((k.1, v.1) :: r.1, r.2))
              else if c = '}' then some ([(k.1, v.1)], rest)
              else none)
        else none)
    else none

end

/-- `JSON.parse(text)`: one value and nothing after it but blanks. -/
def parse (T : NumberText ν) (text : List Char) : Option (JsValue ν) :=
  (readValue T (text.length + 1) text).bind (fun v => if skip v.2 = [] then some v.1 else none)

/-! ## Blanks -/

theorem skip_blanks {blanks : List Char} (h : ∀ c ∈ blanks, isBlank c = true) (cs : List Char) :
    skip (blanks ++ cs) = skip cs := by
  induction blanks with
  | nil => rfl
  | cons c rest ih =>
    have hc : isBlank c = true := h c List.mem_cons_self
    have hrest : skip (rest ++ cs) = skip cs := ih (fun d hd => h d (List.mem_cons_of_mem _ hd))
    rw [List.cons_append, ← hrest]
    unfold skip
    rw [List.dropWhile_cons_of_pos hc]

theorem lineBreak_blank (gap depth : Nat) : ∀ c ∈ lineBreak gap depth, isBlank c = true := by
  intro c hc
  unfold lineBreak at hc
  split at hc
  · cases hc
  · rcases List.mem_cons.mp hc with rfl | hc
    · decide
    · rw [List.eq_of_mem_replicate hc]
      decide

theorem space_blank (gap : Nat) : ∀ c ∈ space gap, isBlank c = true := by
  intro c hc
  unfold space at hc
  split at hc
  · cases hc
  · rw [List.mem_singleton.mp hc]
    decide

theorem skip_lineBreak (gap depth : Nat) {c : Char} (hc : isBlank c = false) (cs : List Char) :
    skip (lineBreak gap depth ++ c :: cs) = c :: cs := by
  rw [skip_blanks (lineBreak_blank gap depth), skip_cons hc]

variable (T : NumberText ν)

theorem readValue_skip (fuel : Nat) {cs ds : List Char}
    (h : skip cs = skip ds) : readValue T fuel cs = readValue T fuel ds := by
  cases fuel with
  | zero => rfl
  | succ fuel => rw [readValue, readValue, h]

theorem readItems_skip (fuel : Nat) {cs ds : List Char}
    (h : skip cs = skip ds) : readItems T fuel cs = readItems T fuel ds := by
  cases fuel with
  | zero => rfl
  | succ fuel => rw [readItems, readItems, readValue_skip T fuel h]

theorem readMembers_skip (fuel : Nat) {cs ds : List Char}
    (h : skip cs = skip ds) : readMembers T fuel cs = readMembers T fuel ds := by
  cases fuel with
  | zero => rfl
  | succ fuel => rw [readMembers, readMembers, h]

/-! ## What is written reads back -/

/-- No number goes on into what follows. -/
def Ends (rest : List Char) : Prop := ∀ c, rest.head? = some c → isNumeral c = false

theorem ends_cons {c : Char} (h : isNumeral c = false) (rest : List Char) : Ends (c :: rest) := by
  intro d hd
  cases hd
  exact h

theorem ends_lineBreak (gap depth : Nat) {c : Char} (h : isNumeral c = false) (rest : List Char) :
    Ends (lineBreak gap depth ++ c :: rest) := by
  unfold lineBreak
  split
  · exact ends_cons h rest
  · exact ends_cons (by decide) _

theorem takeWhile_numeral {w rest : List Char} (hw : ∀ c ∈ w, isNumeral c = true)
    (h : Ends rest) : (w ++ rest).takeWhile isNumeral = w ∧
      (w ++ rest).dropWhile isNumeral = rest := by
  have hrest : rest.takeWhile isNumeral = [] ∧ rest.dropWhile isNumeral = rest := by
    cases rest with
    | nil => exact ⟨rfl, rfl⟩
    | cons c rest =>
      have hc : isNumeral c = false := h c rfl
      exact ⟨List.takeWhile_cons_of_neg (by simp [hc]), List.dropWhile_cons_of_neg (by simp [hc])⟩
  rw [List.takeWhile_append_of_pos hw, List.dropWhile_append_of_pos hw, hrest.1, hrest.2,
    List.append_nil]
  exact ⟨rfl, rfl⟩

theorem isNumeral_other {c : Char} (h : isNumeral c = true) : isBlank c = false ∧ c ≠ '"' ∧
    c ≠ '[' ∧ c ≠ '{' ∧ c ≠ 'n' ∧ c ≠ 't' ∧ c ≠ 'f' ∧ c ≠ ']' := by
  refine ⟨?_, ?_, ?_, ?_, ?_, ?_, ?_, ?_⟩
  · by_contra hblank
    simp only [isBlank, Bool.or_eq_true, decide_eq_true_eq, Bool.not_eq_false] at hblank
    rcases hblank with ((rfl | rfl) | rfl) | rfl <;> revert h <;> decide
  all_goals
    intro heq
    rw [heq] at h
    revert h
    decide

theorem write_head (n : ν) :
    ∃ c rest, T.write n = c :: rest ∧ isNumeral c = true := by
  cases hwrite : T.write n with
  | nil => exact absurd hwrite (T.write_ne n)
  | cons c rest => exact ⟨c, rest, rfl, T.numeral n c (by rw [hwrite]; exact List.mem_cons_self)⟩

theorem readValue_number (fuel : Nat) (n : ν) {rest : List Char}
    (h : Ends rest) : readValue T (fuel + 1) (T.write n ++ rest) = some (.num n, rest) := by
  obtain ⟨c, digits, hwrite, hc⟩ := write_head T n
  obtain ⟨hblank, h1, h2, h3, h4, h5, h6, -⟩ := isNumeral_other hc
  have hsplit := takeWhile_numeral (T.numeral n) h
  have hread : readNumber T (T.write n ++ rest) = some (.num n, rest) := by
    rw [readNumber, hsplit.1, hsplit.2, T.read_write, Option.map_some]
  rw [hwrite, List.cons_append] at hread ⊢
  rw [readValue, skip_cons hblank]
  simp only [if_neg h1, if_neg h2, if_neg h3, if_neg h4, if_neg h5, if_neg h6]
  exact hread

theorem readValue_quote (fuel : Nat) (s rest : List Char) :
    readValue T (fuel + 1) (quote s ++ rest) = some (.str s, rest) := by
  rw [quote, List.cons_append, List.append_assoc, readValue, skip_cons (by decide)]
  simp only [if_pos]
  rw [List.singleton_append, readText_quote]
  rfl

theorem stringify_head (gap depth : Nat) (v : JsValue ν) :
    ∃ c rest, stringify T gap depth v = c :: rest ∧ isBlank c = false ∧ c ≠ ']' := by
  cases v with
  | null => exact ⟨_, _, by rw [stringify], by decide, by decide⟩
  | bool b => cases b <;> exact ⟨_, _, by rw [stringify], by decide, by decide⟩
  | num n =>
    obtain ⟨c, rest, h, hc⟩ := write_head T n
    obtain ⟨hblank, -, -, -, -, -, -, hne⟩ := isNumeral_other hc
    exact ⟨c, rest, by rw [stringify, h], hblank, hne⟩
  | str s => exact ⟨_, _, by rw [stringify, quote], by decide, by decide⟩
  | date iso => exact ⟨_, _, by rw [stringify, quote], by decide, by decide⟩
  | arr items => cases items <;> exact ⟨_, _, by rw [stringify], by decide, by decide⟩
  | obj members => cases members <;> exact ⟨_, _, by rw [stringify], by decide, by decide⟩

theorem stringify_pos (gap depth : Nat) (v : JsValue ν) :
    0 < (stringify T gap depth v).length := by
  obtain ⟨c, rest, h, -⟩ := stringify_head T gap depth v
  rw [h]
  exact Nat.succ_pos _

theorem stringifyItems_cons (gap depth : Nat) (v : JsValue ν)
    (vs : List (JsValue ν)) : ∃ rest,
      stringifyItems T gap depth (v :: vs) = stringify T gap (depth + 1) v ++ rest := by
  cases vs with
  | nil => exact ⟨_, by rw [stringifyItems]⟩
  | cons w vs => exact ⟨_, by rw [stringifyItems]⟩

theorem stringifyMembers_cons (gap depth : Nat) (m : List Char × JsValue ν)
    (ms : List (List Char × JsValue ν)) :
    ∃ rest, stringifyMembers T gap depth (m :: ms) = '"' :: rest := by
  cases ms with
  | nil => exact ⟨_, by rw [stringifyMembers, quote, List.cons_append]⟩
  | cons w ms => exact ⟨_, by rw [stringifyMembers, quote, List.cons_append]⟩

theorem skip_items (gap depth : Nat) (v : JsValue ν) (vs : List (JsValue ν))
    (rest : List Char) :
    skip (lineBreak gap (depth + 1) ++ (stringifyItems T gap depth (v :: vs) ++ rest)) =
        stringifyItems T gap depth (v :: vs) ++ rest ∧
      (stringifyItems T gap depth (v :: vs) ++ rest).head? ≠ some ']' := by
  obtain ⟨tail, htail⟩ := stringifyItems_cons T gap depth v vs
  obtain ⟨c, chars, hc, hblank, hne⟩ := stringify_head T gap (depth + 1) v
  rw [htail, hc, List.cons_append, List.cons_append]
  refine ⟨skip_lineBreak gap (depth + 1) hblank _, ?_⟩
  simpa using hne

mutual

theorem readValue_stringify (T : NumberText ν) (gap : Nat) :
    ∀ (v : JsValue ν) (depth fuel : Nat) (rest : List Char), Ends rest →
    (stringify T gap depth v).length ≤ fuel →
    readValue T fuel (stringify T gap depth v ++ rest) = some (plain v, rest)
  | v, depth, 0, _, _, hfuel => absurd hfuel (Nat.not_le.mpr (stringify_pos T gap depth v))
  | .null, _, fuel + 1, rest, _, _ => by
    rw [stringify, plain]
    rfl
  | .bool true, _, fuel + 1, rest, _, _ => by
    rw [stringify, plain]
    rfl
  | .bool false, _, fuel + 1, rest, _, _ => by
    rw [stringify, plain]
    rfl
  | .num n, _, fuel + 1, rest, hends, _ => by
    rw [stringify, plain]
    exact readValue_number T fuel n hends
  | .str s, _, fuel + 1, rest, _, _ => by
    rw [stringify, plain]
    exact readValue_quote T fuel s rest
  | .date iso, _, fuel + 1, rest, _, _ => by
    rw [stringify, plain]
    exact readValue_quote T fuel iso rest
  | .arr [], _, fuel + 1, rest, _, _ => by
    rw [stringify, plain, plainItems, readValue]
    rfl
  | .arr (v :: vs), depth, fuel + 1, rest, _, hfuel => by
    have hitems := readItems_stringify T gap v vs depth fuel rest (by
      rw [stringify, List.length_cons, List.length_append] at hfuel
      omega)
    have hskip := skip_items T gap depth v vs rest
    rw [stringify, List.cons_append, List.append_assoc, readValue, skip_cons (by decide)]
    simp only [if_pos, if_neg (show ('[' : Char) ≠ '"' by decide)]
    rw [hskip.1, if_neg hskip.2, readItems_skip T fuel (skip_blanks (lineBreak_blank _ _) _),
      hitems, plain]
    rfl
  | .obj [], _, fuel + 1, rest, _, _ => by
    rw [stringify, plain, plainMembers, readValue]
    rfl
  | .obj (m :: ms), depth, fuel + 1, rest, _, hfuel => by
    have hmembers := readMembers_stringify T gap m ms depth fuel rest (by
      rw [stringify, List.length_cons, List.length_append] at hfuel
      omega)
    obtain ⟨tail, htail⟩ := stringifyMembers_cons T gap depth m ms
    rw [stringify, List.cons_append, List.append_assoc, readValue, skip_cons (by decide)]
    simp only [if_pos, if_neg (show ('{' : Char) ≠ '"' by decide),
      if_neg (show ('{' : Char) ≠ '[' by decide)]
    rw [readMembers_skip T fuel (skip_blanks (lineBreak_blank _ _) _), if_neg, hmembers, plain]
    · rfl
    · rw [htail, List.cons_append, skip_lineBreak _ _ (by decide)]
      simp

theorem readItems_stringify (T : NumberText ν) (gap : Nat) :
    ∀ (v : JsValue ν) (vs : List (JsValue ν)) (depth fuel : Nat) (rest : List Char),
    (stringifyItems T gap depth (v :: vs)).length ≤ fuel →
    readItems T fuel (stringifyItems T gap depth (v :: vs) ++ rest) =
      some (plainItems (v :: vs), rest)
  | v, vs, depth, 0, _, hfuel => by
    obtain ⟨tail, htail⟩ := stringifyItems_cons T gap depth v vs
    have := stringify_pos T gap (depth + 1) v
    rw [htail, List.length_append] at hfuel
    omega
  | v, [], depth, fuel + 1, rest, hfuel => by
    rw [stringifyItems, List.length_append, List.length_append, List.length_singleton] at hfuel
    have hv := readValue_stringify T gap v (depth + 1) fuel (lineBreak gap depth ++ ']' :: rest)
      (ends_lineBreak gap depth (by decide) rest) (by omega)
    rw [stringifyItems, List.append_assoc, List.append_assoc, readItems, List.singleton_append, hv,
      Option.bind_some]
    simp only [skip_lineBreak gap depth (show isBlank ']' = false by decide)]
    rfl
  | v, w :: vs, depth, fuel + 1, rest, hfuel => by
    rw [stringifyItems, List.length_append, List.length_cons, List.length_append] at hfuel
    have hpos := stringify_pos T gap (depth + 1) v
    have hv := readValue_stringify T gap v (depth + 1) fuel
      (',' :: (lineBreak gap (depth + 1) ++ (stringifyItems T gap depth (w :: vs) ++ rest)))
      (ends_cons (by decide) _) (by omega)
    have hvs := readItems_stringify T gap w vs depth fuel rest (by omega)
    rw [stringifyItems, List.append_assoc, readItems, List.cons_append, List.append_assoc, hv,
      Option.bind_some]
    simp only [skip_cons (show isBlank ',' = false by decide), if_pos]
    rw [readItems_skip T fuel (skip_blanks (lineBreak_blank _ _) _), hvs, Option.map_some]
    rfl

theorem readMembers_stringify (T : NumberText ν) (gap : Nat) :
    ∀ (m : List Char × JsValue ν) (ms : List (List Char × JsValue ν)) (depth fuel : Nat)
    (rest : List Char), (stringifyMembers T gap depth (m :: ms)).length ≤ fuel →
    readMembers T fuel (stringifyMembers T gap depth (m :: ms) ++ rest) =
      some (plainMembers (m :: ms), rest)
  | m, ms, depth, 0, _, hfuel => by
    obtain ⟨tail, htail⟩ := stringifyMembers_cons T gap depth m ms
    rw [htail, List.length_cons] at hfuel
    omega
  | (k, v), [], depth, fuel + 1, rest, hfuel => by
    simp only [stringifyMembers, List.length_append, List.length_cons] at hfuel
    have hv := readValue_stringify T gap v (depth + 1) fuel (lineBreak gap depth ++ '}' :: rest)
      (ends_lineBreak gap depth (by decide) rest) (by omega)
    rw [stringifyMembers, quote, readMembers]
    simp only [List.cons_append, List.append_assoc, List.nil_append,
      skip_cons (show isBlank '"' = false by decide), List.head?_cons, if_true, List.tail_cons,
      readText_quote, Option.bind_some, skip_cons (show isBlank ':' = false by decide),
      readValue_skip T fuel (skip_blanks (space_blank gap) _), hv,
      skip_lineBreak gap depth (show isBlank '}' = false by decide)]
    rfl
  | (k, v), m :: ms, depth, fuel + 1, rest, hfuel => by
    simp only [stringifyMembers, List.length_append, List.length_cons] at hfuel
    have hv := readValue_stringify T gap v (depth + 1) fuel
      (',' :: (lineBreak gap (depth + 1) ++ (stringifyMembers T gap depth (m :: ms) ++ rest)))
      (ends_cons (by decide) _) (by omega)
    have hms := readMembers_stringify T gap m ms depth fuel rest (by omega)
    rw [stringifyMembers, quote, readMembers]
    simp only [List.cons_append, List.append_assoc, List.nil_append,
      skip_cons (show isBlank '"' = false by decide), List.head?_cons, if_true, List.tail_cons,
      readText_quote, Option.bind_some, skip_cons (show isBlank ':' = false by decide),
      readValue_skip T fuel (skip_blanks (space_blank gap) _), hv,
      skip_cons (show isBlank ',' = false by decide)]
    rw [readMembers_skip T fuel (skip_blanks (lineBreak_blank _ _) _), hms, Option.map_some]
    rfl

end

/-- **What is written reads back**: `JSON.parse` of `JSON.stringify(v, null, gap)`. -/
theorem parse_stringify (gap : Nat) (v : JsValue ν) :
    parse T (stringify T gap 0 v) = some (plain v) := by
  have hread := readValue_stringify T gap v 0 ((stringify T gap 0 v).length + 1) []
    (fun c hc => nomatch hc) (Nat.le_succ _)
  rw [List.append_nil] at hread
  rw [parse, hread, Option.bind_some]
  exact if_pos rfl

theorem stringify_inj (gap : Nat) {v w : JsValue ν}
    (h : stringify T gap 0 v = stringify T gap 0 w) : plain v = plain w := by
  have hread := parse_stringify T gap v
  rw [h, parse_stringify T gap w] at hread
  exact (Option.some.inj hread).symm

theorem writeNumber_numeral (n : Int) : ∀ c ∈ Json.writeNumber n, isNumeral c = true := by
  have hdigits : ∀ c ∈ Nat.toDigits 10 n.natAbs, isNumeral c = true := by
    intro c hc
    have hdigit : c.isDigit = true := Nat.isDigit_of_mem_toDigits (by decide) (by decide) hc
    simp [isNumeral, hdigit]
  intro c hc
  unfold Json.writeNumber at hc
  split at hc
  · rcases List.mem_cons.mp hc with rfl | hc
    · decide
    · exact hdigits c hc
  · exact hdigits c hc

theorem writeNumber_ne (n : Int) : Json.writeNumber n ≠ [] := by
  obtain ⟨c, rest, h, -⟩ := Json.writeNumber_head n
  rw [h]
  exact List.cons_ne_nil c rest

def readWhole (cs : List Char) : Option Int :=
  match Json.readNumber cs with
  | some (.num n, []) => some n
  | _ => none

theorem readWhole_writeNumber (n : Int) : readWhole (Json.writeNumber n) = some n := by
  have hread := @Json.readNumber_writeNumber [] n (fun c hc => nomatch hc)
  rw [List.append_nil] at hread
  rw [readWhole, hread]

def wholeNumbers : NumberText Int where
  write := Json.writeNumber
  read := readWhole
  numeral := writeNumber_numeral
  write_ne := writeNumber_ne
  read_write := readWhole_writeNumber

theorem plainMembers_eq_map (members : List (List Char × JsValue ν)) :
    plainMembers members = members.map (fun m => (m.1, plain m.2)) := by
  induction members with
  | nil => rfl
  | cons m ms ih => exact congrArg ((m.1, plain m.2) :: ·) ih

theorem field_plainMembers (members : List (List Char × JsValue ν)) (name : List Char) :
    field (plainMembers members) name = (field members name).map plain := by
  unfold field
  induction members with
  | nil => rfl
  | cons m ms ih =>
    obtain ⟨k, v⟩ := m
    rw [plainMembers, List.find?_cons, List.find?_cons]
    by_cases hk : k = name
    · simp [hk]
    · simpa [hk] using ih

end JsonLayout
