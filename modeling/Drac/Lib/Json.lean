import Mathlib.Tactic.IntervalCases
import Drac.Lib.JsText

/-
  JSON text.

  `stringify` is `JSON.stringify` and `parse` is `JSON.parse`, over values whose
  numbers are whole and whose texts are well-formed. `parse` refuses fractions,
  exponents and the escapes of surrogates, which no document written here holds.
  An object keeps its members in order, as written.

    `length_quote`      how long a quoted text is.
-/

namespace Json

open JsText

/-- A JSON value; its numbers are whole. -/
inductive Value where
  | null
  | bool (b : Bool)
  | num (n : Int)
  | str (s : List Char)
  | arr (items : List Value)
  | obj (members : List (List Char × Value))

/-! ## Comparing -/

mutual

def Value.decEq : (v w : Value) → Decidable (v = w)
  | .null, .null => isTrue rfl
  | .bool a, .bool b => decidable_of_iff (a = b) (by simp)
  | .num a, .num b => decidable_of_iff (a = b) (by simp)
  | .str a, .str b => decidable_of_iff (a = b) (by simp)
  | .arr a, .arr b =>
    match decEqItems a b with
    | isTrue h => isTrue (congrArg Value.arr h)
    | isFalse h => isFalse (fun heq => h (Value.arr.inj heq))
  | .obj a, .obj b =>
    match decEqMembers a b with
    | isTrue h => isTrue (congrArg Value.obj h)
    | isFalse h => isFalse (fun heq => h (Value.obj.inj heq))
  | .null, .bool _ | .null, .num _ | .null, .str _ | .null, .arr _ | .null, .obj _
  | .bool _, .null | .bool _, .num _ | .bool _, .str _ | .bool _, .arr _ | .bool _, .obj _
  | .num _, .null | .num _, .bool _ | .num _, .str _ | .num _, .arr _ | .num _, .obj _
  | .str _, .null | .str _, .bool _ | .str _, .num _ | .str _, .arr _ | .str _, .obj _
  | .arr _, .null | .arr _, .bool _ | .arr _, .num _ | .arr _, .str _ | .arr _, .obj _
  | .obj _, .null | .obj _, .bool _ | .obj _, .num _ | .obj _, .str _ | .obj _, .arr _ =>
    isFalse (fun h => nomatch h)

def decEqItems : (vs ws : List Value) → Decidable (vs = ws)
  | [], [] => isTrue rfl
  | [], _ :: _ | _ :: _, [] => isFalse (fun h => nomatch h)
  | v :: vs, w :: ws =>
    match v.decEq w, decEqItems vs ws with
    | isTrue h, isTrue k => isTrue (by rw [h, k])
    | isFalse h, _ => isFalse (fun heq => h (List.cons.inj heq).1)
    | _, isFalse k => isFalse (fun heq => k (List.cons.inj heq).2)

def decEqMembers : (ms ns : List (List Char × Value)) → Decidable (ms = ns)
  | [], [] => isTrue rfl
  | [], _ :: _ | _ :: _, [] => isFalse (fun h => nomatch h)
  | (k, v) :: ms, (l, w) :: ns =>
    match decEq k l, v.decEq w, decEqMembers ms ns with
    | isTrue h, isTrue h', isTrue h'' => isTrue (by rw [h, h', h''])
    | isFalse h, _, _ => isFalse (fun heq => h (congrArg Prod.fst (List.cons.inj heq).1))
    | _, isFalse h, _ => isFalse (fun heq => h (congrArg Prod.snd (List.cons.inj heq).1))
    | _, _, isFalse h => isFalse (fun heq => h (List.cons.inj heq).2)

end

instance : DecidableEq Value := Value.decEq

/-! ## Writing -/

def hexDigit (n : Nat) : Char := if n < 10 then Char.ofNat (48 + n) else Char.ofNat (87 + n)

/-- A control character: the short escape where there is one. -/
def escapeControl (n : Nat) : List Char :=
  if n = 8 then ['\\', 'b']
  else if n = 9 then ['\\', 't']
  else if n = 10 then ['\\', 'n']
  else if n = 12 then ['\\', 'f']
  else if n = 13 then ['\\', 'r']
  else ['\\', 'u', '0', '0', hexDigit (n / 16), hexDigit (n % 16)]

def escape (c : Char) : List Char :=
  if c = '"' then ['\\', '"']
  else if c = '\\' then ['\\', '\\']
  else if c.toNat < 0x20 then escapeControl c.toNat
  else [c]

def quote (s : List Char) : List Char := '"' :: (s.flatMap escape ++ ['"'])

def writeNumber (n : Int) : List Char :=
  if n < 0 then '-' :: Nat.toDigits 10 n.natAbs else Nat.toDigits 10 n.natAbs

mutual

/-- `JSON.stringify(value)`. -/
def stringify : Value → List Char
  | .null => ['n', 'u', 'l', 'l']
  | .bool true => ['t', 'r', 'u', 'e']
  | .bool false => ['f', 'a', 'l', 's', 'e']
  | .num n => writeNumber n
  | .str s => quote s
  | .arr items => '[' :: stringifyItems items
  | .obj members => '{' :: stringifyMembers members

def stringifyItems : List Value → List Char
  | [] => [']']
  | [v] => stringify v ++ [']']
  | v :: w :: rest => stringify v ++ ',' :: stringifyItems (w :: rest)

def stringifyMembers : List (List Char × Value) → List Char
  | [] => ['}']
  | [(k, v)] => quote k ++ ':' :: (stringify v ++ ['}'])
  | (k, v) :: m :: rest => quote k ++ ':' :: (stringify v ++ ',' :: stringifyMembers (m :: rest))

end

/-! ## Reading -/

def isBlank (c : Char) : Bool := c = ' ' || c = '\t' || c = '\n' || c = '\r'

def skip (cs : List Char) : List Char := cs.dropWhile isBlank

def hexValue (c : Char) : Option Nat :=
  if '0' ≤ c ∧ c ≤ '9' then some (c.toNat - 48)
  else if 'a' ≤ c ∧ c ≤ 'f' then some (c.toNat - 87)
  else if 'A' ≤ c ∧ c ≤ 'F' then some (c.toNat - 55)
  else none

/-- The character of four hexadecimal digits, where they are no surrogate. -/
def unescapeUnit (a b c d : Char) : Option Char :=
  match hexValue a, hexValue b, hexValue c, hexValue d with
  | some a, some b, some c, some d =>
    let n := 4096 * a + 256 * b + 16 * c + d
    if 0xD800 ≤ n ∧ n < 0xE000 then none else some (Char.ofNat n)
  | _, _, _, _ => none

def unescape (e : Char) : Option Char :=
  if e = '"' ∨ e = '\\' ∨ e = '/' then some e
  else if e = 'b' then some (Char.ofNat 8)
  else if e = 't' then some (Char.ofNat 9)
  else if e = 'n' then some (Char.ofNat 10)
  else if e = 'f' then some (Char.ofNat 12)
  else if e = 'r' then some (Char.ofNat 13)
  else none

/-- The rest of a text, after its opening quote, up to its closing one. -/
def readText : List Char → Option (List Char × List Char)
  | [] => none
  | '"' :: rest => some ([], rest)
  | '\\' :: 'u' :: a :: b :: c :: d :: rest =>
    (unescapeUnit a b c d).bind (fun e => (readText rest).map (fun r => (e :: r.1, r.2)))
  | '\\' :: e :: rest =>
    (unescape e).bind (fun e => (readText rest).map (fun r => (e :: r.1, r.2)))
  | c :: rest =>
    if c = '\\' ∨ c.toNat < 0x20 then none
    else (readText rest).map (fun r => (c :: r.1, r.2))

/-- A whole number: no leading zero, no fraction and no exponent. -/
def readNatural (cs : List Char) : Option (Nat × List Char) :=
  let digits := cs.takeWhile Char.isDigit
  let rest := cs.dropWhile Char.isDigit
  if digits = [] ∨ (digits.head? = some '0' ∧ digits ≠ ['0']) ∨
      rest.head?.any (fun c => c = '.' || c = 'e' || c = 'E') then none
  else some (Nat.ofDigitChars 10 digits 0, rest)

def readNumber : List Char → Option (Value × List Char)
  | [] => none
  | c :: rest =>
    if c = '-' then (readNatural rest).map (fun r => (.num (-(r.1 : Int)), r.2))
    else (readNatural (c :: rest)).map (fun r => (.num r.1, r.2))

def readWord (w : List Char) (v : Value) (cs : List Char) : Option (Value × List Char) :=
  if w <+: cs then some (v, cs.drop w.length) else none

mutual

/-- A value and what follows it. The fuel bounds the values read on the way. -/
def readValue : Nat → List Char → Option (Value × List Char)
  | 0, _ => none
  | fuel + 1, cs =>
    match skip cs with
    | [] => none
    | c :: rest =>
      if c = '"' then (readText rest).map (fun r => (.str r.1, r.2))
      else if c = '[' then
        if (skip rest).head? = some ']' then some (.arr [], (skip rest).tail)
        else (readItems fuel rest).map (fun r => (.arr r.1, r.2))
      else if c = '{' then
        if (skip rest).head? = some '}' then some (.obj [], (skip rest).tail)
        else (readMembers fuel rest).map (fun r => (.obj r.1, r.2))
      else if c = 'n' then readWord ['u', 'l', 'l'] .null rest
      else if c = 't' then readWord ['r', 'u', 'e'] (.bool true) rest
      else if c = 'f' then readWord ['a', 'l', 's', 'e'] (.bool false) rest
      else readNumber (c :: rest)

def readItems : Nat → List Char → Option (List Value × List Char)
  | 0, _ => none
  | fuel + 1, cs =>
    (readValue fuel cs).bind (fun v =>
      match skip v.2 with
      | [] => none
      | c :: rest =>
        if c = ',' then (readItems fuel rest).map (fun r => (v.1 :: r.1, r.2))
        else if c = ']' then some ([v.1], rest)
        else none)

def readMembers : Nat → List Char → Option (List (List Char × Value) × List Char)
  | 0, _ => none
  | fuel + 1, cs =>
    if (skip cs).head? = some '"' then
      (readText (skip cs).tail).bind (fun k =>
        if (skip k.2).head? = some ':' then
          (readValue fuel (skip k.2).tail).bind (fun v =>
            match skip v.2 with
            | [] => none
            | c :: rest =>
              if c = ',' then (readMembers fuel rest).map (fun r => ((k.1, v.1) :: r.1, r.2))
              else if c = '}' then some ([(k.1, v.1)], rest)
              else none)
        else none)
    else none

end

/-- `JSON.parse(text)`: one value and nothing after it but blanks. -/
def parse (text : List Char) : Option Value :=
  (readValue (text.length + 1) text).bind (fun v => if skip v.2 = [] then some v.1 else none)

/-! ## Members -/

/-- `value.name`, `none` for `undefined`: of members of one name the last counts. -/
def field (v : Value) (name : List Char) : Option Value :=
  match v with
  | .obj members => (members.reverse.find? (fun m => m.1 = name)).map Prod.snd
  | _ => none

def textField (v : Value) (name : List Char) : Option (List Char) :=
  match field v name with
  | some (.str s) => some s
  | _ => none

def itemsField (v : Value) (name : List Char) : Option (List Value) :=
  match field v name with
  | some (.arr items) => some items
  | _ => none

def isNumber (n : Int) : Option Value → Bool
  | some (.num m) => m = n
  | _ => false

/-! ## Texts -/

theorem readText_control (n : Nat) (hn : n < 0x20) (t : List Char) :
    readText (escapeControl n ++ t) =
      (readText t).map (fun r => (Char.ofNat n :: r.1, r.2)) := by
  interval_cases n <;> rfl

theorem readText_plain (c : Char) (t : List Char) (hquote : c ≠ '"') (hslash : c ≠ '\\')
    (hcontrol : ¬ c.toNat < 0x20) :
    readText (c :: t) = (readText t).map (fun r => (c :: r.1, r.2)) := by
  have hplain : ¬ (c = '\\' ∨ c.toNat < 0x20) := not_or.mpr ⟨hslash, hcontrol⟩
  rw [readText]
  · exact if_neg hplain
  · exact hquote
  · intro a b d e rest h
    exact absurd h hslash
  · intro e rest h
    exact absurd h hslash

theorem readText_escape (c : Char) (t : List Char) :
    readText (escape c ++ t) = (readText t).map (fun r => (c :: r.1, r.2)) := by
  unfold escape
  split
  · next h =>
    subst h
    rfl
  · next hquote =>
    split
    · next h =>
      subst h
      rfl
    · next hslash =>
      split
      · next hcontrol =>
        rw [readText_control c.toNat hcontrol, Char.ofNat_toNat]
      · next hcontrol => exact readText_plain c t hquote hslash hcontrol

theorem readText_quote (s rest : List Char) :
    readText (s.flatMap escape ++ ('"' :: rest)) = some (s, rest) := by
  induction s with
  | nil => rfl
  | cons c s ih =>
    rw [List.flatMap_cons, List.append_assoc, readText_escape, ih]
    rfl

/-! ## Numbers -/

/-- What may stand after a number: nothing that would go on with it. -/
def Ends (rest : List Char) : Prop :=
  ∀ c ∈ rest.head?, c.isDigit = false ∧ c ≠ '.' ∧ c ≠ 'e' ∧ c ≠ 'E'

theorem head_toDigits (n : Nat) : (Nat.toDigits 10 n).head? = some '0' → n = 0 := by
  induction n using Nat.strong_induction_on with
  | _ n ih =>
    intro h
    rcases Nat.lt_or_ge n 10 with hlt | hge
    · rw [Nat.toDigits_of_lt_base hlt] at h
      interval_cases n <;> simp_all [Nat.digitChar]
    · have hfirst : (Nat.toDigits 10 n).head? = (Nat.toDigits 10 (n / 10)).head? := by
        rw [Nat.toDigits_of_base_le (by decide) hge]
        cases hdigits : Nat.toDigits 10 (n / 10) with
        | nil => exact absurd hdigits Nat.toDigits_ne_nil
        | cons c rest => rfl
      have := ih (n / 10) (by omega) (hfirst ▸ h)
      omega

variable {rest : List Char}

theorem readNatural_toDigits (n : Nat) (h : Ends rest) :
    readNatural (Nat.toDigits 10 n ++ rest) = some (n, rest) := by
  have hall : ∀ c ∈ Nat.toDigits 10 n, c.isDigit = true :=
    fun c hc => Nat.isDigit_of_mem_toDigits (by decide) (by decide) hc
  have htake : rest.takeWhile Char.isDigit = [] := by
    cases rest with
    | nil => rfl
    | cons c rest => simp [(h c rfl).1]
  have hdrop : rest.dropWhile Char.isDigit = rest := by
    cases rest with
    | nil => rfl
    | cons c rest => simp [(h c rfl).1]
  have hzero : ¬ ((Nat.toDigits 10 n).head? = some '0' ∧ Nat.toDigits 10 n ≠ ['0']) := by
    rintro ⟨hhead, hne⟩
    rw [head_toDigits n hhead] at hne
    exact hne rfl
  have hend : ¬ rest.head?.any (fun c => c = '.' || c = 'e' || c = 'E') = true := by
    cases rest with
    | nil => simp
    | cons c rest => simpa [and_assoc] using (h c rfl).2
  have hcond : ¬ (Nat.toDigits 10 n = [] ∨
      ((Nat.toDigits 10 n).head? = some '0' ∧ Nat.toDigits 10 n ≠ ['0']) ∨
      rest.head?.any (fun c => c = '.' || c = 'e' || c = 'E') = true) := by
    rintro (hnil | hlead | hgo)
    · exact Nat.toDigits_ne_nil hnil
    · exact hzero hlead
    · exact hend hgo
  rw [readNatural, List.takeWhile_append_of_pos hall, List.dropWhile_append_of_pos hall, htake,
    hdrop, List.append_nil]
  simp only [if_neg hcond, Nat.ofDigitChars_ten_toDigits]

theorem readNumber_writeNumber (n : Int) (h : Ends rest) :
    readNumber (writeNumber n ++ rest) = some (.num n, rest) := by
  have hread := readNatural_toDigits n.natAbs h
  unfold writeNumber
  split
  · next hneg =>
    rw [List.cons_append, readNumber, if_pos rfl, hread]
    simp only [Option.map_some]
    congr 3
    omega
  · next hpos =>
    cases hdigits : Nat.toDigits 10 n.natAbs with
    | nil => exact absurd hdigits Nat.toDigits_ne_nil
    | cons c digits =>
      have hdigit : c.isDigit = true :=
        Nat.isDigit_of_mem_toDigits (by decide) (by decide) (hdigits ▸ List.mem_cons_self)
      have hminus : c ≠ '-' := by
        rintro rfl
        exact absurd hdigit (by decide)
      rw [hdigits, List.cons_append] at hread
      rw [List.cons_append, readNumber, if_neg hminus, hread]
      simp only [Option.map_some]
      congr 3
      omega

/-! ## What is written reads back -/

variable {c : Char}

theorem skip_cons (h : isBlank c = false) (rest : List Char) :
    skip (c :: rest) = c :: rest := by
  unfold skip
  rw [List.dropWhile_cons_of_neg (by simp [h])]

theorem writeNumber_head (n : Int) : ∃ c rest, writeNumber n = c :: rest ∧
    (c = '-' ∨ c.isDigit = true) := by
  unfold writeNumber
  split
  · exact ⟨_, _, rfl, .inl rfl⟩
  · cases hdigits : Nat.toDigits 10 n.natAbs with
    | nil => exact absurd hdigits Nat.toDigits_ne_nil
    | cons c digits =>
      exact ⟨c, digits, rfl, .inr (Nat.isDigit_of_mem_toDigits (by decide) (by decide)
        (hdigits ▸ List.mem_cons_self))⟩

theorem readValue_number (fuel : Nat) (n : Int) (h : Ends rest) :
    readValue (fuel + 1) (writeNumber n ++ rest) = some (.num n, rest) := by
  obtain ⟨c, digits, hwrite, hc⟩ := writeNumber_head n
  have hread := readNumber_writeNumber n h
  rw [hwrite, List.cons_append] at hread
  have hother : isBlank c = false ∧ c ≠ '"' ∧ c ≠ '[' ∧ c ≠ '{' ∧ c ≠ 'n' ∧ c ≠ 't' ∧ c ≠ 'f' := by
    refine ⟨?_, ?_, ?_, ?_, ?_, ?_, ?_⟩
    · by_contra hblank
      simp only [isBlank, Bool.or_eq_true, decide_eq_true_eq, Bool.not_eq_false] at hblank
      rcases hblank with ((rfl | rfl) | rfl) | rfl <;> revert hc <;> decide
    all_goals
      rintro rfl
      revert hc
      decide
  obtain ⟨hblank, h1, h2, h3, h4, h5, h6⟩ := hother
  rw [hwrite, List.cons_append, readValue, skip_cons hblank]
  simp only [if_neg h1, if_neg h2, if_neg h3, if_neg h4, if_neg h5, if_neg h6]
  exact hread

theorem stringify_head (v : Value) : ∃ c rest, stringify v = c :: rest ∧ isBlank c = false ∧
    c ≠ ']' := by
  cases v with
  | null => exact ⟨_, _, by rw [stringify], by decide, by decide⟩
  | bool b => cases b <;> exact ⟨_, _, by rw [stringify], by decide, by decide⟩
  | num n =>
    obtain ⟨c, rest, h, hc⟩ := writeNumber_head n
    refine ⟨c, rest, by rw [stringify, h], ?_, ?_⟩
    · by_contra hblank
      simp only [isBlank, Bool.or_eq_true, decide_eq_true_eq, Bool.not_eq_false] at hblank
      rcases hblank with ((rfl | rfl) | rfl) | rfl <;> revert hc <;> decide
    · rintro rfl
      revert hc
      decide
  | str s => exact ⟨_, _, by rw [stringify, quote], by decide, by decide⟩
  | arr items => exact ⟨_, _, by rw [stringify], by decide, by decide⟩
  | obj members => exact ⟨_, _, by rw [stringify], by decide, by decide⟩

theorem stringify_pos (v : Value) : 0 < (stringify v).length := by
  obtain ⟨c, rest, h, -⟩ := stringify_head v
  rw [h]
  exact Nat.succ_pos _

theorem skip_stringify (v : Value) (rest : List Char) :
    skip (stringify v ++ rest) = stringify v ++ rest ∧
      (stringify v ++ rest).head? ≠ some ']' := by
  obtain ⟨c, tail, h, hblank, hne⟩ := stringify_head v
  rw [h, List.cons_append]
  refine ⟨skip_cons hblank _, ?_⟩
  simpa using hne

theorem stringifyItems_cons (v : Value) (vs : List Value) :
    ∃ rest, stringifyItems (v :: vs) = stringify v ++ rest := by
  cases vs with
  | nil => exact ⟨_, by rw [stringifyItems]⟩
  | cons w vs => exact ⟨_, by rw [stringifyItems]⟩

theorem stringifyMembers_cons (m : List Char × Value) (ms : List (List Char × Value)) :
    ∃ rest, stringifyMembers (m :: ms) = '"' :: rest := by
  cases ms with
  | nil => exact ⟨_, by rw [stringifyMembers, quote, List.cons_append]⟩
  | cons w ms => exact ⟨_, by rw [stringifyMembers, quote, List.cons_append]⟩

theorem ends_comma (rest : List Char) : Ends (',' :: rest) := by
  intro c hc
  cases hc
  decide

theorem ends_bracket (rest : List Char) : Ends (']' :: rest) := by
  intro c hc
  cases hc
  decide

theorem ends_brace (rest : List Char) : Ends ('}' :: rest) := by
  intro c hc
  cases hc
  decide

mutual

theorem readValue_stringify : ∀ (v : Value) (fuel : Nat) (rest : List Char), Ends rest →
    (stringify v).length ≤ fuel → readValue fuel (stringify v ++ rest) = some (v, rest)
  | _, 0, _, _, hfuel => absurd hfuel (Nat.not_le.mpr (stringify_pos _))
  | .null, fuel + 1, rest, _, _ => by
    rw [stringify]
    rfl
  | .bool true, fuel + 1, rest, _, _ => by
    rw [stringify]
    rfl
  | .bool false, fuel + 1, rest, _, _ => by
    rw [stringify]
    rfl
  | .num n, fuel + 1, rest, hends, _ => by
    rw [stringify]
    exact readValue_number fuel n hends
  | .str s, fuel + 1, rest, _, _ => by
    rw [stringify, quote, List.cons_append, List.append_assoc, readValue,
      skip_cons (by decide)]
    simp only [if_pos]
    rw [List.singleton_append, readText_quote]
    rfl
  | .arr [], fuel + 1, rest, _, _ => by
    rw [stringify, stringifyItems, readValue]
    rfl
  | .arr (v :: vs), fuel + 1, rest, _, hfuel => by
    have hitems := readItems_stringify v vs fuel rest (by
      rw [stringify, List.length_cons] at hfuel
      omega)
    obtain ⟨tail, htail⟩ := stringifyItems_cons v vs
    have hskip := skip_stringify v (tail ++ rest)
    rw [← List.append_assoc, ← htail] at hskip
    rw [stringify, List.cons_append, readValue, skip_cons (by decide)]
    simp only [if_pos, if_neg (show ('[' : Char) ≠ '"' by decide)]
    rw [hskip.1, if_neg hskip.2, hitems]
    rfl
  | .obj [], fuel + 1, rest, _, _ => by
    rw [stringify, stringifyMembers, readValue]
    rfl
  | .obj (m :: ms), fuel + 1, rest, _, hfuel => by
    have hmembers := readMembers_stringify m ms fuel rest (by
      rw [stringify, List.length_cons] at hfuel
      omega)
    obtain ⟨tail, htail⟩ := stringifyMembers_cons m ms
    rw [stringify, List.cons_append, readValue, skip_cons (by decide)]
    simp only [if_pos, if_neg (show ('{' : Char) ≠ '"' by decide),
      if_neg (show ('{' : Char) ≠ '[' by decide)]
    rw [if_neg, hmembers]
    · rfl
    · rw [htail, List.cons_append, skip_cons (by decide)]
      simp

theorem readItems_stringify : ∀ (v : Value) (vs : List Value) (fuel : Nat) (rest : List Char),
    (stringifyItems (v :: vs)).length ≤ fuel →
    readItems fuel (stringifyItems (v :: vs) ++ rest) = some (v :: vs, rest)
  | v, vs, 0, _, hfuel => by
    obtain ⟨tail, htail⟩ := stringifyItems_cons v vs
    have := stringify_pos v
    rw [htail, List.length_append] at hfuel
    omega
  | v, [], fuel + 1, rest, hfuel => by
    rw [stringifyItems, List.length_append, List.length_singleton] at hfuel
    have hv := readValue_stringify v fuel (']' :: rest) (ends_bracket rest) (by omega)
    rw [stringifyItems, List.append_assoc, readItems, List.singleton_append, hv]
    rfl
  | v, w :: vs, fuel + 1, rest, hfuel => by
    rw [stringifyItems, List.length_append, List.length_cons] at hfuel
    have hpos := stringify_pos v
    have hv := readValue_stringify v fuel (',' :: (stringifyItems (w :: vs) ++ rest))
      (ends_comma _) (by omega)
    have hvs := readItems_stringify w vs fuel rest (by omega)
    rw [stringifyItems, List.append_assoc, readItems, List.cons_append, hv, Option.bind_some]
    simp only [skip_cons (show isBlank ',' = false by decide), if_pos, hvs, Option.map_some]

theorem readMembers_stringify : ∀ (m : List Char × Value) (ms : List (List Char × Value))
    (fuel : Nat) (rest : List Char), (stringifyMembers (m :: ms)).length ≤ fuel →
    readMembers fuel (stringifyMembers (m :: ms) ++ rest) = some (m :: ms, rest)
  | m, ms, 0, _, hfuel => by
    obtain ⟨tail, htail⟩ := stringifyMembers_cons m ms
    rw [htail, List.length_cons] at hfuel
    omega
  | (k, v), [], fuel + 1, rest, hfuel => by
    rw [stringifyMembers, List.length_append, List.length_cons, List.length_append,
      List.length_singleton] at hfuel
    have hv := readValue_stringify v fuel ('}' :: rest) (ends_brace rest) (by omega)
    rw [stringifyMembers, quote, readMembers]
    simp only [List.cons_append, List.append_assoc, List.nil_append,
      skip_cons (show isBlank '"' = false by decide), List.head?_cons, if_true, List.tail_cons,
      readText_quote, Option.bind_some, skip_cons (show isBlank ':' = false by decide), hv,
      skip_cons (show isBlank '}' = false by decide)]
    rfl
  | (k, v), m :: ms, fuel + 1, rest, hfuel => by
    rw [stringifyMembers, List.length_append, List.length_cons, List.length_append,
      List.length_cons] at hfuel
    have hv := readValue_stringify v fuel (',' :: (stringifyMembers (m :: ms) ++ rest))
      (ends_comma _) (by omega)
    have hms := readMembers_stringify m ms fuel rest (by omega)
    rw [stringifyMembers, quote, readMembers]
    simp only [List.cons_append, List.append_assoc, List.nil_append,
      skip_cons (show isBlank '"' = false by decide), List.head?_cons, if_true, List.tail_cons,
      readText_quote, Option.bind_some, skip_cons (show isBlank ':' = false by decide), hv,
      skip_cons (show isBlank ',' = false by decide), hms, Option.map_some]

end

/-- **What is written reads back**, also with a line feed after it. -/
theorem parse_stringify (v : Value) (blanks : List Char) (h : skip blanks = []) (hends : Ends blanks) :
    parse (stringify v ++ blanks) = some v := by
  have hread := readValue_stringify v ((stringify v ++ blanks).length + 1) blanks hends (by
    rw [List.length_append]
    omega)
  rw [parse, hread, Option.bind_some, if_pos h]

/-! ## What is not finished does not read -/

variable {cs : List Char}

theorem skip_append (h : skip cs = c :: rest)
    (u : List Char) : skip (cs ++ u) = c :: (rest ++ u) := by
  unfold skip at *
  rw [List.dropWhile_append, h]
  rfl

theorem readText_append : ∀ {s rest : List Char}, readText cs = some (s, rest) →
    ∀ u, readText (cs ++ u) = some (s, rest ++ u) := by
  induction cs using readText.induct with
  | case1 => intro s rest h; cases h
  | case2 cs =>
    intro s rest h u
    cases h
    rfl
  | case3 a b c d cs ih =>
    intro s rest h u
    simp only [readText, Option.bind_eq_some_iff, Option.map_eq_some_iff] at h
    obtain ⟨e, he, r, hr, heq⟩ := h
    cases heq
    simp only [List.cons_append, readText, he, Option.bind_some, ih hr u, Option.map_some]
  | case4 e cs hne ih =>
    intro s rest h u
    rw [readText] at h
    · simp only [Option.bind_eq_some_iff, Option.map_eq_some_iff] at h
      obtain ⟨e', he, r, hr, heq⟩ := h
      cases heq
      -- the escape is a short one, which `u` is not
      have hu : e ≠ 'u' := by
        rintro rfl
        rw [show unescape 'u' = none by decide] at he
        cases he
      rw [List.cons_append, List.cons_append, readText]
      · simp only [he, Option.bind_some, ih hr u, Option.map_some]
      · intro a b c d rest h _
        exact hu h
    · exact hne
  | case5 c cs hquote hu hslash hcontrol =>
    intro s rest h u
    rw [readText, if_pos hcontrol] at h
    · cases h
    · exact hquote
    · exact hu
    · exact hslash
  | case6 c cs hquote hu hslash hcontrol ih =>
    intro s rest h u
    rw [readText, if_neg hcontrol] at h
    · rw [Option.map_eq_some_iff] at h
      obtain ⟨r, hr, heq⟩ := h
      cases heq
      rw [not_or] at hcontrol
      rw [List.cons_append, readText_plain c _ hquote hcontrol.1 hcontrol.2, ih hr u, Option.map_some]
    · exact hquote
    · exact hu
    · exact hslash

theorem readNatural_append {n : Nat}
    (h : readNatural cs = some (n, rest)) (hne : rest ≠ []) (u : List Char) :
    readNatural (cs ++ u) = some (n, rest ++ u) := by
  unfold readNatural at h
  simp only at h
  split at h
  · cases h
  · next hcond =>
    cases h
    cases hrest : cs.dropWhile Char.isDigit with
    | nil => exact absurd hrest hne
    | cons c rest =>
      have hdrop : (cs ++ u).dropWhile Char.isDigit = c :: (rest ++ u) := by
        rw [List.dropWhile_append, hrest]
        rfl
      have htake : (cs ++ u).takeWhile Char.isDigit = cs.takeWhile Char.isDigit := by
        have hlen : (cs.takeWhile Char.isDigit).length ≠ cs.length := by
          intro heq
          have hall := List.takeWhile_append_dropWhile (p := Char.isDigit) (l := cs)
          have := congrArg List.length hall
          rw [List.length_append, heq, hrest, List.length_cons] at this
          omega
        rw [List.takeWhile_append, if_neg hlen]
      rw [hrest] at hcond
      unfold readNatural
      simp only [hdrop, htake]
      exact if_neg hcond

/-- A value whose end shows: any but a number, whose digits might go on. -/
def Value.Shows : Value → Prop
  | .num _ => False
  | _ => True

variable {v : Value}

theorem readNumber_append
    (h : readNumber cs = some (v, rest)) (hne : v.Shows ∨ rest ≠ []) (u : List Char) :
    readNumber (cs ++ u) = some (v, rest ++ u) := by
  cases cs with
  | nil => cases h
  | cons c cs =>
    rw [readNumber] at h
    rw [List.cons_append, readNumber]
    split at h
    · next hminus =>
      rw [Option.map_eq_some_iff] at h
      obtain ⟨r, hr, heq⟩ := h
      cases heq
      have hrest : r.2 ≠ [] := hne.resolve_left (by simp [Value.Shows])
      rw [if_pos hminus, readNatural_append hr hrest u, Option.map_some]
    · next hminus =>
      rw [Option.map_eq_some_iff] at h
      obtain ⟨r, hr, heq⟩ := h
      cases heq
      have hrest : r.2 ≠ [] := hne.resolve_left (by simp [Value.Shows])
      have happ := readNatural_append hr hrest u
      rw [List.cons_append] at happ
      rw [if_neg hminus, happ, Option.map_some]

theorem readWord_append {w cs : List Char} {v v' : Value}
    (h : readWord w v cs = some (v', rest)) (u : List Char) :
    readWord w v (cs ++ u) = some (v', rest ++ u) := by
  unfold readWord at *
  split at h
  · next hpre =>
    cases h
    rw [if_pos (hpre.trans (List.prefix_append cs u)),
      List.drop_append_of_le_length hpre.length_le]
  · cases h

theorem ne_nil_of_skip (h : skip cs = c :: rest) :
    cs ≠ [] := by
  rintro rfl
  cases h

theorem cons_of_head (h : cs.head? = some c) :
    ∃ rest, cs = c :: rest := by
  cases cs with
  | nil => cases h
  | cons d rest =>
    cases h
    exact ⟨rest, rfl⟩

theorem readValue_blank (h : skip cs = []) (fuel : Nat) :
    readValue fuel cs = none := by
  cases fuel with
  | zero => rw [readValue]
  | succ fuel => rw [readValue, h]

theorem readItems_blank (h : skip cs = []) (fuel : Nat) :
    readItems fuel cs = none := by
  cases fuel with
  | zero => rw [readItems]
  | succ fuel => rw [readItems, readValue_blank h, Option.bind_none]

theorem readMembers_blank (h : skip cs = []) (fuel : Nat) :
    readMembers fuel cs = none := by
  cases fuel with
  | zero => rw [readMembers]
  | succ fuel => rw [readMembers, h, List.head?_nil, if_neg (by simp)]

theorem readOpened_append {α : Type} {read : Nat → List Char → Option (List α × List Char)}
    {close : Char} {empty v : Value} {make : List α → Value} {fuel : Nat}
    (hread : ∀ {cs : List Char} {as : List α} {rest : List Char}, read fuel cs = some (as, rest) →
      ∀ more u, read (fuel + more) (cs ++ u) = some (as, rest ++ u))
    (hblank : ∀ {cs : List Char}, skip cs = [] → read fuel cs = none)
    (h : (if (skip cs).head? = some close then some (empty, (skip cs).tail)
      else (read fuel cs).map (fun r => (make r.1, r.2))) = some (v, rest)) (more : Nat)
    (u : List Char) :
    (if (skip (cs ++ u)).head? = some close then some (empty, (skip (cs ++ u)).tail)
      else (read (fuel + more) (cs ++ u)).map (fun r => (make r.1, r.2))) =
      some (v, rest ++ u) := by
  cases hskip : skip cs with
  | nil =>
    rw [hskip, List.head?_nil, if_neg (by simp), hblank hskip] at h
    cases h
  | cons c tail =>
    rw [hskip] at h
    rw [skip_append hskip u]
    simp only [List.head?_cons, Option.some.injEq, List.tail_cons] at h ⊢
    split at h
    · next hclose =>
      cases h
      rw [if_pos hclose]
    · next hclose =>
      rw [Option.map_eq_some_iff] at h
      obtain ⟨r, hr, heq⟩ := h
      cases heq
      rw [if_neg hclose, hread hr more u, Option.map_some]

theorem read_append (fuel : Nat) :
    (∀ {cs : List Char} {v : Value} {rest : List Char}, readValue fuel cs = some (v, rest) →
      (v.Shows ∨ rest ≠ []) → ∀ more u, readValue (fuel + more) (cs ++ u) = some (v, rest ++ u)) ∧
    (∀ {cs : List Char} {vs : List Value} {rest : List Char}, readItems fuel cs = some (vs, rest) →
      ∀ more u, readItems (fuel + more) (cs ++ u) = some (vs, rest ++ u)) ∧
    (∀ {cs : List Char} {ms : List (List Char × Value)} {rest : List Char},
      readMembers fuel cs = some (ms, rest) →
      ∀ more u, readMembers (fuel + more) (cs ++ u) = some (ms, rest ++ u)) := by
  induction fuel with
  | zero =>
    refine ⟨?_, ?_, ?_⟩
    · intro cs v rest h; cases h
    · intro cs vs rest h; cases h
    · intro cs ms rest h; cases h
  | succ fuel ih =>
    obtain ⟨ihValue, ihItems, ihMembers⟩ := ih
    have hfuel : ∀ more, fuel + 1 + more = fuel + more + 1 := by omega
    refine ⟨?_, ?_, ?_⟩
    · intro cs v rest h hshows more u
      rw [readValue] at h
      rw [hfuel, readValue]
      cases hskip : skip cs with
      | nil =>
        rw [hskip] at h
        cases h
      | cons c tail =>
        rw [hskip] at h
        rw [skip_append hskip u]
        simp only at h ⊢
        by_cases hquote : c = '"'
        · rw [if_pos hquote, Option.map_eq_some_iff] at h
          obtain ⟨r, hr, heq⟩ := h
          cases heq
          rw [if_pos hquote, readText_append hr u, Option.map_some]
        rw [if_neg hquote] at h ⊢
        by_cases hopen : c = '['
        · rw [if_pos hopen] at h ⊢
          exact readOpened_append ihItems (fun hs => readItems_blank hs fuel) h more u
        rw [if_neg hopen] at h ⊢
        by_cases hbrace : c = '{'
        · rw [if_pos hbrace] at h ⊢
          exact readOpened_append ihMembers (fun hs => readMembers_blank hs fuel) h more u
        rw [if_neg hbrace] at h ⊢
        by_cases hn : c = 'n'
        · rw [if_pos hn] at h ⊢
          exact readWord_append h u
        rw [if_neg hn] at h ⊢
        by_cases ht : c = 't'
        · rw [if_pos ht] at h ⊢
          exact readWord_append h u
        rw [if_neg ht] at h ⊢
        by_cases hf : c = 'f'
        · rw [if_pos hf] at h ⊢
          exact readWord_append h u
        rw [if_neg hf] at h ⊢
        exact readNumber_append h hshows u
    · intro cs vs rest h more u
      rw [readItems, Option.bind_eq_some_iff] at h
      obtain ⟨v, hv, h⟩ := h
      rw [hfuel, readItems]
      cases hskip : skip v.2 with
      | nil =>
        rw [hskip] at h
        cases h
      | cons c tail =>
        rw [ihValue hv (.inr (ne_nil_of_skip hskip)) more u, Option.bind_some]
        rw [hskip] at h
        simp only [skip_append hskip u] at h ⊢
        by_cases hcomma : c = ','
        · rw [if_pos hcomma, Option.map_eq_some_iff] at h
          obtain ⟨r, hr, heq⟩ := h
          cases heq
          rw [if_pos hcomma, ihItems hr more u, Option.map_some]
        rw [if_neg hcomma] at h ⊢
        split at h
        · next hclose =>
          cases h
          rw [if_pos hclose]
        · cases h
    · intro cs ms rest h more u
      rw [readMembers] at h
      rw [hfuel, readMembers]
      split at h
      · next hquote =>
        obtain ⟨tail, htail⟩ := cons_of_head hquote
        rw [htail, List.tail_cons, Option.bind_eq_some_iff] at h
        obtain ⟨k, hk, h⟩ := h
        rw [skip_append htail u, List.head?_cons, if_pos rfl, List.tail_cons, readText_append hk u,
          Option.bind_some]
        split at h
        · next hcolon =>
          obtain ⟨tail', htail'⟩ := cons_of_head hcolon
          rw [htail', List.tail_cons, Option.bind_eq_some_iff] at h
          obtain ⟨v, hv, h⟩ := h
          rw [skip_append htail' u, List.head?_cons, if_pos rfl, List.tail_cons]
          cases hskip : skip v.2 with
          | nil =>
            rw [hskip] at h
            cases h
          | cons c rest' =>
            rw [ihValue hv (.inr (ne_nil_of_skip hskip)) more u, Option.bind_some]
            rw [hskip] at h
            simp only [skip_append hskip u] at h ⊢
            by_cases hcomma : c = ','
            · rw [if_pos hcomma, Option.map_eq_some_iff] at h
              obtain ⟨r, hr, heq⟩ := h
              cases heq
              rw [if_pos hcomma, ihMembers hr more u, Option.map_some]
            rw [if_neg hcomma] at h ⊢
            split at h
            · next hclose =>
              cases h
              rw [if_pos hclose]
            · cases h
        · cases h
      · cases h

/-- What begins as an object reads as one, and so shows its end. -/
theorem shows_of_brace {fuel : Nat} {cs rest : List Char} {v : Value}
    (h : readValue fuel ('{' :: cs) = some (v, rest)) : v.Shows := by
  cases fuel with
  | zero => cases h
  | succ fuel =>
    rw [readValue, skip_cons (by decide)] at h
    simp only [if_neg (show ('{' : Char) ≠ '"' by decide),
      if_neg (show ('{' : Char) ≠ '[' by decide), if_true] at h
    split at h
    · cases h
      trivial
    · rw [Option.map_eq_some_iff] at h
      obtain ⟨r, -, heq⟩ := h
      cases heq
      trivial

/-- **An object that was not written to its end does not read.** -/
theorem parse_unfinished (ms : List (List Char × Value)) {t u : List Char}
    (h : t ++ u = stringify (.obj ms)) (hu : u ≠ []) : parse t = none := by
  cases hread : readValue (t.length + 1) t with
  | none => rw [parse, hread, Option.bind_none]
  | some r =>
    obtain ⟨v, rest⟩ := r
    rw [parse, hread, Option.bind_some]
    by_cases hrest : skip rest = []
    · -- read on with the rest of the text, it is the object, and nothing is left over
      exfalso
      have hshows : v.Shows ∨ rest ≠ [] := by
        cases t with
        | nil => cases hread
        | cons c t =>
          rw [stringify, List.cons_append, List.cons.injEq] at h
          obtain ⟨rfl, -⟩ := h
          left
          exact shows_of_brace hread
      have hon := (read_append (t.length + 1)).1 hread hshows (stringify (.obj ms)).length u
      have hwhole := readValue_stringify (.obj ms) (t.length + 1 + (stringify (.obj ms)).length) []
        (by intro c hc; cases hc) (by omega)
      rw [List.append_nil, ← h] at hwhole
      rw [h] at hon hwhole
      rw [hon] at hwhole
      simp only [Option.some.injEq, Prod.mk.injEq, List.append_eq_nil_iff] at hwhole
      exact hu hwhole.2.2
    · rw [if_neg hrest]

/-! ## Length -/

/-- How many code units a quoted text takes. -/
def quotedLength (s : List Char) : Nat := 2 + (s.map (fun c => length (escape c))).sum

theorem length_quote (s : List Char) : length (quote s) = quotedLength s := by
  have hbody : length (s.flatMap escape) = (s.map (fun c => length (escape c))).sum := by
    induction s with
    | nil => rfl
    | cons c s ih => rw [List.flatMap_cons, length_append, ih, List.map_cons, List.sum_cons]
  have hunit : (units '"').length = 1 := by decide
  rw [quote, quotedLength, length_cons, length_append, length_cons, length_nil, hunit, hbody]
  omega

theorem length_stringifyItems : ∀ vs : List Value, length (stringifyItems vs) =
    (vs.map (fun v => length (stringify v))).sum + max 1 vs.length
  | [] => by
    rw [stringifyItems]
    rfl
  | [v] => by
    have hunit : (units ']').length = 1 := by decide
    rw [stringifyItems, length_append, length_cons, length_nil, hunit, List.map_singleton,
      List.sum_singleton, List.length_singleton]
    omega
  | v :: w :: vs => by
    have hunit : (units ',').length = 1 := by decide
    rw [stringifyItems, length_append, length_cons, length_stringifyItems (w :: vs), hunit]
    simp only [List.map_cons, List.sum_cons, List.length_cons]
    omega

end Json
