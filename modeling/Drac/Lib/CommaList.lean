import Drac.Lib.IpText

/-
  A list written in one text, with commas between.

    items         the entries, without blanks, those that are empty left out;
    mapM_ok_iff   a list is read whole if every entry is, each as a function says.
-/

namespace CommaList

open IpText (Text isDigit)

/-- `text.trim()`. -/
def trim (text : Text) : Text := JsText.trimEnd (JsText.trimStart text)

/-- The entries among parts: those that are not blank. -/
def written (parts : List Text) : List Text := (parts.map trim).filter (· ≠ [])

def items (value : Text) : List Text := written (value.splitOn ',')

/-- `/^\d+$/`. -/
def isDecimal (s : Text) : Bool := s ≠ [] && s.all isDigit

theorem isDecimal_iff {s : Text} :
    isDecimal s = true ↔ s ≠ [] ∧ ∀ c ∈ s, isDigit c = true := by
  rw [isDecimal, Bool.and_eq_true, decide_eq_true_eq, List.all_eq_true]

theorem written_blank {part : Text} (h : trim part = []) (parts : List Text) :
    written (part :: parts) = written parts := by
  rw [written, List.map_cons, h]
  rfl

theorem written_cons {part : Text} (h : trim part ≠ []) (parts : List Text) :
    written (part :: parts) = trim part :: written parts :=
  List.filter_cons_of_pos (decide_eq_true h)

theorem trim_of_read {t : Text} {a : IpText.Address} (h : IpText.read t = some a) : trim t = t :=
  JsText.trim_of_no_space (fun _ hc => IpText.isSpace_of_addressChar (IpText.read_chars h hc))

section Reading

variable {α β ε : Type}

theorem mapM_cons_ok {f : α → Except ε β} {a : α} {l : List α} {ys : List β} :
    (a :: l).mapM f = .ok ys ↔ ∃ b bs, f a = .ok b ∧ l.mapM f = .ok bs ∧ ys = b :: bs := by
  rw [List.mapM_cons]
  cases ha : f a with
  | error e => exact ⟨nofun, nofun⟩
  | ok b =>
    cases hl : l.mapM f with
    | error e => exact ⟨nofun, nofun⟩
    | ok bs =>
      constructor
      · intro h
        cases h
        exact ⟨b, bs, rfl, rfl, rfl⟩
      · rintro ⟨b', bs', hb, hbs, rfl⟩
        cases hb
        cases hbs
        rfl

theorem mapM_ok_iff {f : α → Except ε β} {g : α → Option β} : ∀ {l : List α},
    (∀ a ∈ l, ∀ b, f a = .ok b ↔ g a = some b) → ∀ ys,
      l.mapM f = .ok ys ↔ (∀ a ∈ l, (g a).isSome) ∧ ys = l.filterMap g
  | [], _, ys => by
    constructor
    · intro h
      cases h
      exact ⟨nofun, rfl⟩
    · rintro ⟨-, rfl⟩
      rfl
  | a :: l, h, ys => by
    have ih := mapM_ok_iff (fun x hx => h x (List.mem_cons_of_mem a hx))
    have ha := h a List.mem_cons_self
    rw [mapM_cons_ok, List.forall_mem_cons]
    constructor
    · rintro ⟨b, bs, hb, hbs, rfl⟩
      obtain ⟨hrest, rfl⟩ := (ih bs).mp hbs
      have hg := (ha b).mp hb
      refine ⟨⟨by rw [hg]; rfl, hrest⟩, ?_⟩
      rw [List.filterMap_cons_some hg]
    · rintro ⟨⟨hsome, hrest⟩, rfl⟩
      obtain ⟨b, hg⟩ := Option.isSome_iff_exists.mp hsome
      refine ⟨b, l.filterMap g, (ha b).mpr hg, (ih _).mpr ⟨hrest, rfl⟩, ?_⟩
      rw [List.filterMap_cons_some hg]

theorem mapM_isOk_iff {f : α → Except ε β} : ∀ {l : List α},
    (∃ ys, l.mapM f = .ok ys) ↔ ∀ a ∈ l, ∃ b, f a = .ok b
  | [] => ⟨fun _ => nofun, fun _ => ⟨[], rfl⟩⟩
  | a :: l => by
    have ih := mapM_isOk_iff (f := f) (l := l)
    rw [List.forall_mem_cons, ← ih]
    constructor
    · rintro ⟨ys, h⟩
      obtain ⟨b, bs, hb, hbs, -⟩ := mapM_cons_ok.mp h
      exact ⟨⟨b, hb⟩, bs, hbs⟩
    · rintro ⟨⟨b, hb⟩, bs, hbs⟩
      exact ⟨b :: bs, mapM_cons_ok.mpr ⟨b, bs, hb, hbs, rfl⟩⟩

end Reading

end CommaList
