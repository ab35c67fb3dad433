import Mathlib.Algebra.Order.BigOperators.Group.List
import Drac.Recordings.FileDeletion

/-
  What the journal's reader makes of what its writer wrote.

  Every entry of a staged journal names a path below the root that is not the
  journal's own (`Target`), and a place of its own in quarantine. Such a journal reads
  back whole (`readJournal_journalText`) under two limits, which the writer does not
  have: the text's length, given in closed form by `journalLength`, and the ids of the
  guards.
-/

namespace Drac.Recordings

open JsText PosixPath Files

/-! ## Shapes -/

theorem fits_length : ∀ {ps : List (Char → Bool)} {s : List Char}, fits ps s = true →
    s.length = ps.length
  | [], [], _ => rfl
  | _ :: ps, _ :: cs, h => by
    rw [fits, Bool.and_eq_true] at h
    rw [List.length_cons, List.length_cons, fits_length h.2]
  | [], _ :: _, h => by cases h
  | _ :: _, [], h => by cases h

theorem fits_mono {ps qs : List (Char → Bool)}
    (h : List.Forall₂ (fun p q : Char → Bool => ∀ c, p c = true → q c = true) ps qs) :
    ∀ {s : List Char}, fits ps s = true → fits qs s = true := by
  induction h with
  | nil => exact id
  | cons hpq _ ih =>
    intro s hs
    cases s with
    | nil => cases hs
    | cons c cs =>
      rw [fits, Bool.and_eq_true] at hs ⊢
      exact ⟨hpq c hs.1, ih hs.2⟩

theorem fits_forall {P : Char → Prop} : ∀ {ps : List (Char → Bool)} {s : List Char},
    fits ps s = true → (∀ p ∈ ps, ∀ c, p c = true → P c) → ∀ c ∈ s, P c
  | [], [], _, _ => fun c hc => absurd hc List.not_mem_nil
  | p :: ps, d :: cs, h, hP => by
    rw [fits, Bool.and_eq_true] at h
    intro c hc
    rcases List.mem_cons.mp hc with rfl | hc
    · exact hP p List.mem_cons_self c h.1
    · exact fits_forall h.2 (fun q hq => hP q (List.mem_cons_of_mem _ hq)) c hc
  | [], _ :: _, h, _ => by cases h
  | _ :: _, [], h, _ => by cases h

/-- A character written in quotes as itself, in one code unit. -/
def Plain (c : Char) : Prop := 0x20 ≤ c.toNat ∧ c.toNat < 0x80 ∧ c ≠ '"' ∧ c ≠ '\\'

instance decidablePlain (c : Char) : Decidable (Plain c) :=
  inferInstanceAs (Decidable (_ ∧ _ ∧ _ ∧ _))

theorem plain_of_all {s : List Char} (h : s.all (fun c => decide (Plain c)) = true) :
    ∀ c ∈ s, Plain c :=
  fun c hc => of_decide_eq_true (List.all_eq_true.mp h c hc)

theorem quotedLength_plain {s : List Char} (h : ∀ c ∈ s, Plain c) :
    Json.quotedLength s = s.length + 2 := by
  have hsum : (s.map (fun c => JsText.length (Json.escape c))).sum = s.length := by
    induction s with
    | nil => rfl
    | cons c s ih =>
      obtain ⟨hlo, hhi, hquote, hslash⟩ := h c List.mem_cons_self
      have hone : JsText.length (Json.escape c) = 1 := by
        rw [Json.escape, if_neg hquote, if_neg hslash, if_neg (by omega), length_cons, length_nil,
          units, if_pos (by omega)]
        rfl
      rw [List.map_cons, List.sum_cons, hone, ih (fun d hd => h d (List.mem_cons_of_mem _ hd)),
        List.length_cons, Nat.add_comm]
  rw [Json.quotedLength, hsum, Nat.add_comm]

variable {c : Char}

theorem isLowerHex_iff : isLowerHex c = true ↔
    ('0' ≤ c ∧ c ≤ '9') ∨ ('a' ≤ c ∧ c ≤ 'f') := by
  simp [isLowerHex]

theorem char_le_iff {c d : Char} : c ≤ d ↔ c.toNat ≤ d.toNat := Iff.rfl

theorem isLowerHex_plain (h : isLowerHex c = true) : Plain c ∧ c ≠ '/' ∧ c ≠ '.' := by
  rw [isLowerHex_iff] at h
  simp only [char_le_iff] at h
  have h0 : '0'.toNat = 48 := rfl
  have h9 : '9'.toNat = 57 := rfl
  have ha : 'a'.toNat = 97 := rfl
  have hf : 'f'.toNat = 102 := rfl
  have hne : ∀ d : Char, d.toNat < 48 ∨ d.toNat = 92 → c ≠ d := by
    rintro d hd rfl
    omega
  exact ⟨⟨by omega, by omega, hne _ (.inl (by decide)), hne _ (.inr (by decide))⟩,
    hne _ (.inl (by decide)), hne _ (.inl (by decide))⟩

theorem isDash_plain (h : isDash c = true) : Plain c ∧ c ≠ '/' ∧ c ≠ '.' := by
  have hc : c = '-' := of_decide_eq_true h
  rw [hc]
  refine ⟨⟨by decide, by decide, by decide, by decide⟩, by decide, by decide⟩

theorem isStamp_plain (h : isStamp c = true) : Plain c := by
  simp only [isStamp, Bool.or_eq_true, Bool.and_eq_true, decide_eq_true_eq] at h
  rcases h with ((((h | rfl) | rfl) | rfl) | rfl) | rfl
  · exact (isLowerHex_plain (isLowerHex_iff.mpr (.inl h))).1
  all_goals exact ⟨by decide, by decide, by decide, by decide⟩

theorem mem_uuidShape {p : Char → Bool} (h : p ∈ uuidShape) : p = isLowerHex ∨ p = isDash := by
  simp only [uuidShape, List.mem_append, List.mem_replicate, List.mem_singleton] at h
  tauto

namespace Uuid

variable (u : Uuid)

theorem chars : ∀ c ∈ u.text, Plain c ∧ c ≠ '/' ∧ c ≠ '.' :=
  fits_forall u.shaped (by
    intro p hp c hc
    rcases mem_uuidShape hp with rfl | rfl
    · exact isLowerHex_plain hc
    · exact isDash_plain hc)

theorem length_text : u.text.length = 36 := fits_length u.shaped

theorem isName : IsName u.text := by
  have hlen := u.length_text
  have hdot : ∀ s : List Char, s.length ≤ 2 → u.text ≠ s := by
    rintro s hs h
    rw [h] at hlen
    omega
  refine ⟨hdot _ (by decide), hdot _ (by decide), hdot _ (by decide), ?_⟩
  intro h
  exact (u.chars _ h).2.1 rfl

theorem operationShape : fits operationShape u.text = true := by
  refine fits_mono ?_ u.shaped
  have hhex : ∀ c, isLowerHex c = true → isHex c = true := by
    intro c h
    simp [isHex, h]
  have hany : ∀ c, isLowerHex c = true → (isHex c || isDash c) = true := by
    intro c h
    simp [isHex, h]
  have hdash : ∀ c, isDash c = true → (isHex c || isDash c) = true := by
    intro c h
    simp [h]
  simp only [uuidShape, Recordings.operationShape, List.replicate, List.cons_append,
    List.nil_append, List.forall₂_cons, List.forall₂_nil_left_iff, and_true]
  exact ⟨hhex, hhex, hhex, hhex, hhex, hhex, hhex, hhex, fun _ h => h, hany, hany, hany, hany,
    hdash, hany, hany, hany, hany, hdash, hany, hany, hany, hany, hdash, hany, hany, hany, hany,
    hany, hany, hany, hany, hany, hany, hany, hany⟩

end Uuid

/-! ## Targets -/

theorem journalDir_isName : IsName journalDir := by decide

theorem quarantineDir_isName : IsName quarantineDir := by decide

theorem parentDir_slash : '/' ∉ parentDir := by decide

/-- What may be deleted: names below the root, the first of them not the journal's. -/
structure Target (q : Path) : Prop where
  ne_nil : q ≠ []
  names : ∀ s ∈ q, IsName s
  head : q.head? ≠ some journalDir

variable {q : Path}

theorem not_startsBelow {pre : Name} (hpre : '/' ∉ pre) (hq : ∀ s ∈ q, IsName s)
    (h : q.head? ≠ some pre) : startsBelow (render q) pre = false := by
  by_contra hstarts
  rw [Bool.not_eq_false, startsBelow, decide_eq_true_eq] at hstarts
  obtain ⟨rest, rfl, -⟩ := prefix_render hpre hq hstarts
  exact h rfl

theorem render_ne {s : Name} (hs : '/' ∉ s) (hq : ∀ t ∈ q, IsName t) (hne : q ≠ [])
    (h : q.head? ≠ some s) : render q ≠ s := by
  intro heq
  have hsplit := namesOf_render (fun t ht => (hq t ht).2.2.2) hne
  rw [heq, namesOf, List.splitOn_eq_singleton hs] at hsplit
  rw [← hsplit] at h
  exact h rfl

theorem head_ne_of_not_isName {s : Name} (hq : ∀ t ∈ q, IsName t) (hs : ¬ IsName s) :
    q.head? ≠ some s := by
  intro h
  cases q with
  | nil => cases h
  | cons t q =>
    cases h
    exact hs (hq s List.mem_cons_self)

/-- **What the writer accepts**: the targets, written as their names. -/
theorem assertUnderRoot_target {root q : Path} (hq : Target q) :
    assertUnderRoot root (root ++ q) = .ok (render q) := by
  obtain ⟨hne, hnames, hhead⟩ := hq
  have hdots : q.head? ≠ some parentDir := head_ne_of_not_isName hnames (by decide)
  have hroot : ¬ (render q = [] ∨ render q = ['.']) := by
    rintro (h | h)
    · exact render_ne (by decide) hnames hne (head_ne_of_not_isName hnames (by decide)) h
    · exact render_ne (by decide) hnames hne (head_ne_of_not_isName hnames (by decide)) h
  have hjournal : ¬ (render q = journalDir ∨ startsBelow (render q) journalDir = true) := by
    rintro (h | h)
    · exact render_ne journalDir_isName.2.2.2 hnames hne hhead h
    · rw [not_startsBelow journalDir_isName.2.2.2 hnames hhead] at h
      cases h
  have hout : ¬ (startsBelow (render q) parentDir = true ∨ render q = parentDir ∨
      isAbsolute (render q) = true) := by
    rintro (h | h | h)
    · rw [not_startsBelow parentDir_slash hnames hdots] at h
      cases h
    · exact render_ne parentDir_slash hnames hne hdots h
    · rw [isAbsolute_render hnames] at h
      cases h
  simp only [assertUnderRoot, relativeTo_under, if_neg hroot, if_neg hjournal, if_neg hout]

theorem assertUnderRoot_ok {root p : Path} (hp : ∀ s ∈ p, IsName s) {rel : List Char}
    (h : assertUnderRoot root p = .ok rel) : ∃ q, p = root ++ q ∧ Target q ∧ rel = render q := by
  simp only [assertUnderRoot] at h
  split at h
  · cases h
  next hroot =>
  split at h
  · cases h
  next hjournal =>
  split at h
  · cases h
  next hout =>
  cases h
  by_cases hunder : root <+: p
  · obtain ⟨q, rfl⟩ := hunder
    rw [relativeTo_under] at *
    rw [not_or] at hroot hjournal
    refine ⟨q, rfl, ⟨?_, fun s hs => hp s (List.mem_append_right _ hs), ?_⟩, rfl⟩
    · rintro rfl
      exact hroot.1 rfl
    · intro hhead
      cases q with
      | nil => cases hhead
      | cons s q =>
        cases hhead
        by_cases hrest : q = []
        · refine hjournal.1 ?_
          rw [hrest, render_head, if_pos rfl, List.append_nil]
        · exact hjournal.2 (decide_eq_true (render_below hrest))
  · exfalso
    rcases relativeTo_outside hunder with heq | hpre
    · exact hout (.inr (.inl heq))
    · exact hout (.inl (decide_eq_true hpre))

theorem candidatePath_isName (root : AbsPath) (c : List Char) :
    ∀ s ∈ candidatePath root c, IsName s := by
  unfold candidatePath
  split
  · exact (root.resolve c).plain
  · exact (root.joinUnder c).plain

/-! ## The journal of a deletion -/

/-- A journal as the writer makes it: of a new operation, over targets. -/
structure Written (j : DeletionJournal) (rels : List (List Char)) : Prop where
  operation : ∃ u : Uuid, j.operationId = u.text
  created : ∃ d : IsoInstant, j.createdAt = d.text
  entries : j.entries = makeEntries j.operationId rels
  targets : ∀ rel ∈ rels, ∃ q, Target q ∧ rel = render q

theorem mapM_ok_mem {α β ε : Type} {f : α → Except ε β} : ∀ {l : List α} {r : List β},
    l.mapM f = .ok r → ∀ b ∈ r, ∃ a ∈ l, f a = .ok b
  | [], r, h => by
    cases h
    intro b hb
    cases hb
  | a :: l, r, h => by
    rw [List.mapM_cons] at h
    cases hfa : f a with
    | error e =>
      rw [hfa] at h
      cases h
    | ok b =>
      cases hl : l.mapM f with
      | error e =>
        rw [hfa, hl] at h
        cases h
      | ok bs =>
        rw [hfa, hl] at h
        cases h
        intro c hc
        rcases List.mem_cons.mp hc with rfl | hc
        · exact ⟨a, List.mem_cons_self, hfa⟩
        · obtain ⟨a', ha', hc'⟩ := mapM_ok_mem hl c hc
          exact ⟨a', List.mem_cons_of_mem _ ha', hc'⟩

def relativePaths (root : AbsPath) (candidates : List (List Char)) :
    Except StageError (List (List Char)) :=
  (candidates.mapM (fun c => assertUnderRoot root.names (candidatePath root c))).map
    (fun rels => rels.eraseDups)

theorem stageJournal_written {root : AbsPath} {candidates : List (List Char)}
    {guards : List DeletionGuard} {u : Uuid} {d : IsoInstant} {j : DeletionJournal}
    (h : stageJournal root candidates guards u d = .ok j) :
    ∃ rels, relativePaths root candidates = .ok rels ∧ j.guards = guards ∧
      j.operationId = u.text ∧ Written j rels := by
  unfold stageJournal at h
  cases hmap : candidates.mapM (fun c => assertUnderRoot root.names (candidatePath root c)) with
  | error e =>
    rw [hmap] at h
    cases h
  | ok rels =>
    rw [hmap] at h
    cases h
    refine ⟨rels.eraseDups, by rw [relativePaths, hmap]; rfl, rfl, rfl, ⟨u, rfl⟩, ⟨d, rfl⟩, rfl, ?_⟩
    intro rel hrel
    obtain ⟨c, -, hc⟩ := mapM_ok_mem hmap rel (List.mem_eraseDups.mp hrel)
    obtain ⟨q, -, hq, hrender⟩ := assertUnderRoot_ok (candidatePath_isName root c) hc
    exact ⟨q, hq, hrender⟩

/-! ## Quarantine -/

theorem padIndex_digit (i : Nat) : ∀ c ∈ padIndex i, c.isDigit = true := by
  intro c hc
  rcases List.mem_append.mp hc with hc | hc
  · rw [(List.mem_replicate.mp hc).2]
    decide
  · exact Nat.isDigit_of_mem_toDigits (by decide) (by decide) hc

theorem padIndex_inj {i k : Nat} (h : padIndex i = padIndex k) : i = k := by
  have hvalue : ∀ n, Nat.ofDigitChars 10 (padIndex n) 0 = n := by
    intro n
    rw [padIndex, Nat.ofDigitChars_append, Nat.ofDigitChars_replicate_zero, Nat.mul_zero,
      Nat.ofDigitChars_ten_toDigits]
  rw [← hvalue i, h, hvalue k]

theorem padIndex_isName (i : Nat) : IsName (padIndex i) := by
  have hdigit := padIndex_digit i
  have hne : padIndex i ≠ [] := by
    rw [padIndex]
    intro h
    exact Nat.toDigits_ne_nil (List.append_eq_nil_iff.mp h).2
  refine ⟨hne, ?_, ?_, ?_⟩
  · intro h
    exact absurd (hdigit '.' (by rw [h]; exact List.mem_cons_self)) (by decide)
  · intro h
    exact absurd (hdigit '.' (by rw [h]; exact List.mem_cons_self)) (by decide)
  · intro h
    exact absurd (hdigit '/' h) (by decide)

theorem joinRelative_names {p : Path} (hp : ∀ s ∈ p, IsName s) (hne : p ≠ []) :
    joinRelative p = render p := by
  have hflat : p.flatMap namesOf = p := by
    clear hne
    induction p with
    | nil => rfl
    | cons s p ih =>
      rw [List.flatMap_cons, ih (fun t ht => hp t (List.mem_cons_of_mem _ ht)), namesOf,
        List.splitOn_eq_singleton (hp s List.mem_cons_self).2.2.2, List.singleton_append]
  simp only [joinRelative, hflat, normalizeNames_names true hp, if_neg hne]

/-- The names of the place of the `i`-th entry in quarantine. -/
def quarantineNames (operationId : Name) (i : Nat) : Path :=
  [journalDir, operationId, quarantineDir, padIndex i]

variable {op : Name}

theorem quarantineNames_isName (hop : IsName op) (i : Nat) :
    ∀ s ∈ quarantineNames op i, IsName s := by
  simp only [quarantineNames, List.forall_mem_cons, List.not_mem_nil, false_imp_iff,
    implies_true, and_true]
  exact ⟨journalDir_isName, hop, quarantineDir_isName, padIndex_isName i⟩

/-- An entry as the writer of the operation makes it. -/
structure OwnEntry (operationId : Name) (e : JournalEntry) (i : Nat) (q : Path) : Prop where
  target : Target q
  original : e.originalRelative = render q
  quarantine : e.quarantineRelative = render (quarantineNames operationId i)

variable {e : JournalEntry}

section Written

variable {root : AbsPath} {j : DeletionJournal} {rels : List (List Char)} (hw : Written j rels)

include hw

theorem Written.operation_isName : IsName j.operationId := by
  obtain ⟨u, hu⟩ := hw.operation
  rw [hu]
  exact u.isName

theorem Written.ownEntry (he : e ∈ j.entries) :
    ∃ i q, OwnEntry j.operationId e i q := by
  rw [hw.entries, makeEntries, List.mem_map] at he
  obtain ⟨⟨rel, i⟩, hmem, rfl⟩ := he
  have hrel : rel ∈ rels := by
    obtain ⟨_, _, h⟩ := List.mem_zipIdx hmem
    rw [h]
    exact List.getElem_mem _
  obtain ⟨q, hq, rfl⟩ := hw.targets rel hrel
  exact ⟨i, q, hq, rfl, joinRelative_names (quarantineNames_isName hw.operation_isName i)
    (List.cons_ne_nil _ _)⟩

end Written

variable {i : Nat}

theorem originalPath_own {root : AbsPath}
    (h : OwnEntry op e i q) : originalPath root e = root.names ++ q := by
  rw [originalPath, h.original]
  exact joinUnder_render root.plain h.target.names h.target.ne_nil

theorem quarantinePath_own (root : AbsPath) (hop : IsName op)
    (h : OwnEntry op e i q) :
    quarantinePath root e = quarantineRoot root op ++ [padIndex i] := by
  rw [quarantinePath, h.quarantine]
  rw [joinUnder_render root.plain (quarantineNames_isName hop i) (List.cons_ne_nil _ _)]
  simp [quarantineNames, quarantineRoot, operationRoot, operationsRoot]

/-! ## Reading back -/

theorem mapM_written {α β : Type} {f : β → Option α} {g : α → β} : ∀ {l : List α},
    (∀ a ∈ l, f (g a) = some a) → (l.map g).mapM f = some l
  | [], _ => rfl
  | a :: l, h => by
    rw [List.map_cons, List.mapM_cons, h a List.mem_cons_self,
      mapM_written (fun b hb => h b (List.mem_cons_of_mem _ hb))]
    rfl

theorem mapM_refused {α β : Type} {f : α → Option β} : ∀ {l : List α} {a : α}, a ∈ l →
    f a = none → l.mapM f = none
  | b :: l, a, hmem, ha => by
    rw [List.mapM_cons]
    rcases List.mem_cons.mp hmem with rfl | hmem
    · rw [ha]
      rfl
    · rw [mapM_refused hmem ha]
      cases f b <;> rfl

theorem quarantineAllowed_own {root : AbsPath} (hop : IsName op) (i : Nat) :
    quarantineAllowed root op (render (quarantineNames op i)) = true := by
  have hnames := quarantineNames_isName hop i
  have hresolve := resolve_render root.plain hnames (List.cons_ne_nil _ _)
  have hhead : (quarantineNames op i).head? ≠ some parentDir := by
    intro h
    exact absurd (Option.some.inj h) (by decide)
  have hprefix : quarantinePrefix op = render [journalDir, op, quarantineDir] :=
    joinRelative_names (by
      simp only [List.forall_mem_cons, List.not_mem_nil, false_imp_iff, implies_true, and_true]
      exact ⟨journalDir_isName, hop, quarantineDir_isName⟩) (List.cons_ne_nil _ _)
  have hbelow : startsBelow (render (quarantineNames op i)) (quarantinePrefix op) = true := by
    rw [startsBelow, decide_eq_true_eq, hprefix,
      show quarantineNames op i = [journalDir, op, quarantineDir] ++ [padIndex i] from rfl,
      render_append (List.cons_ne_nil _ _) (List.cons_ne_nil _ _)]
    exact ⟨render [padIndex i], by simp⟩
  simp only [quarantineAllowed, hresolve, relativeTo_under, hbelow,
    not_startsBelow parentDir_slash hnames hhead, isAbsolute_render hnames,
    decide_eq_false (render_ne parentDir_slash hnames (List.cons_ne_nil _ _) hhead), Bool.or_false,
    Bool.not_true, Bool.and_false, Bool.not_false]

theorem readEntry_own {root : AbsPath} (hop : IsName op)
    (h : OwnEntry op e i q) : readEntry root op (entryValue e) = some e := by
  have horiginal : Json.textField (entryValue e) "originalRelative".toList = some e.originalRelative :=
    rfl
  have hquarantine : Json.textField (entryValue e) "quarantineRelative".toList =
      some e.quarantineRelative := rfl
  have hunder : assertUnderRoot root.names (joinUnder root.names e.originalRelative) =
      .ok (render q) := by
    rw [h.original, joinUnder_render root.plain h.target.names h.target.ne_nil]
    exact assertUnderRoot_target h.target
  have habsolute : ¬ (isAbsolute e.originalRelative || isAbsolute e.quarantineRelative) = true := by
    rw [h.original, h.quarantine, isAbsolute_render h.target.names,
      isAbsolute_render (quarantineNames_isName hop i)]
    decide
  have hallowed : quarantineAllowed root op e.quarantineRelative = true := by
    rw [h.quarantine]
    exact quarantineAllowed_own hop i
  rw [readEntry, horiginal, hquarantine]
  simp only [if_neg habsolute, hunder, if_pos hallowed]

/-- The ids recovery accepts. -/
def GuardReadable (g : DeletionGuard) : Prop := g.id ≠ [] ∧ JsText.length g.id ≤ 256

theorem readModel_text (m : GuardModel) : readModel m.text = some m := by
  cases m <;> rfl

theorem readGuard_written (g : DeletionGuard) :
    (GuardReadable g → readGuard (guardValue g) = some g) ∧
      (¬ GuardReadable g → readGuard (guardValue g) = none) := by
  have hmodel : Json.textField (guardValue g) "model".toList = some g.model.text := rfl
  have hid : Json.textField (guardValue g) "id".toList = some g.id := rfl
  have hiff : GuardReadable g ↔ ¬ (g.id = [] ∨ 256 < JsText.length g.id) := by
    rw [GuardReadable, not_or, not_lt]
  rw [readGuard, hmodel, hid, Option.bind_some, readModel_text, hiff]
  constructor
  · intro h
    simp only [if_neg h]
  · intro h
    simp only [if_pos (not_not.mp h)]

theorem validateJournal_eq (root : AbsPath) {j : DeletionJournal} {rels : List (List Char)}
    (hw : Written j rels) : validateJournal root j.operationId (.obj (journalMembers j)) =
      if 100000 < j.entries.length ∨ 100000 < j.guards.length then none
      else ((j.guards.map guardValue).mapM readGuard).map
        (fun gs => { guards := gs, entries := j.entries }) := by
  have hversion : Json.isNumber 1 (Json.field (.obj (journalMembers j)) "version".toList) = true := rfl
  have hoperation : Json.textField (.obj (journalMembers j)) "operationId".toList =
      some j.operationId := rfl
  have hshape : fits operationShape j.operationId = true := by
    obtain ⟨u, hu⟩ := hw.operation
    rw [hu]
    exact u.operationShape
  have hcond : (Json.isNumber 1 (Json.field (.obj (journalMembers j)) "version".toList) &&
      decide (Json.textField (.obj (journalMembers j)) "operationId".toList = some j.operationId) &&
      fits operationShape j.operationId) = true := by
    rw [hversion, hoperation, hshape, decide_eq_true rfl]
    rfl
  have hes : Json.itemsField (.obj (journalMembers j)) "entries".toList =
      some (j.entries.map entryValue) := rfl
  have hgs : Json.itemsField (.obj (journalMembers j)) "guards".toList =
      some (j.guards.map guardValue) := rfl
  have hread : (j.entries.map entryValue).mapM (readEntry root j.operationId) = some j.entries := by
    refine mapM_written ?_
    intro e he
    obtain ⟨i, q, how⟩ := hw.ownEntry he
    exact readEntry_own hw.operation_isName how
  rw [validateJournal, if_pos hcond, hes, hgs]
  simp only [List.length_map, hread, Option.bind_some]

theorem readGuards_all {gs : List DeletionGuard} (h : ∀ g ∈ gs, GuardReadable g) :
    (gs.map guardValue).mapM readGuard = some gs :=
  mapM_written (fun g hg => (readGuard_written g).1 (h g hg))

theorem readGuards_some {gs gs' : List DeletionGuard}
    (h : (gs.map guardValue).mapM readGuard = some gs') : gs' = gs ∧ ∀ g ∈ gs, GuardReadable g := by
  have hall : ∀ g ∈ gs, GuardReadable g := by
    intro g hg
    by_contra hbad
    rw [mapM_refused (List.mem_map_of_mem hg) ((readGuard_written g).2 hbad)] at h
    cases h
  rw [readGuards_all hall] at h
  cases h
  exact ⟨rfl, hall⟩

/-! ## How long the journal is -/

def guardLength (g : DeletionGuard) : Nat := 16 + Json.quotedLength g.model.text + Json.quotedLength g.id

def entryLength (rel : List Char) : Nat := 117 + Json.quotedLength rel

/-- The length of the journal of a deletion, from its guards and its paths. -/
def journalLength (guards : List DeletionGuard) (rels : List (List Char)) : Nat :=
  129 + ((guards.map guardLength).sum + max 1 guards.length) +
    ((rels.map entryLength).sum + max 1 rels.length)

theorem length_punctuation : (units '{').length = 1 ∧ (units '}').length = 1 ∧
    (units ':').length = 1 ∧ (units ',').length = 1 := by decide

theorem length_guardValue (g : DeletionGuard) :
    JsText.length (Json.stringify (guardValue g)) = guardLength g := by
  have hmodel : Json.quotedLength "model".toList = 7 := by decide
  have hid : Json.quotedLength "id".toList = 4 := by decide
  rw [guardValue, Json.stringify, Json.stringifyMembers, Json.stringifyMembers]
  simp only [Json.stringify, length_append, length_cons, length_nil, Json.length_quote, hmodel, hid,
    length_punctuation, guardLength]
  omega

theorem length_entryValue (e : JournalEntry) :
    JsText.length (Json.stringify (entryValue e)) =
      43 + Json.quotedLength e.originalRelative + Json.quotedLength e.quarantineRelative := by
  have horiginal : Json.quotedLength "originalRelative".toList = 18 := by decide
  have hquarantine : Json.quotedLength "quarantineRelative".toList = 20 := by decide
  rw [entryValue, Json.stringify, Json.stringifyMembers, Json.stringifyMembers]
  simp only [Json.stringify, length_append, length_cons, length_nil, Json.length_quote, horiginal,
    hquarantine, length_punctuation]
  omega

theorem length_padIndex (i : Nat) : 8 ≤ (padIndex i).length ∧
    (i < 100000000 → (padIndex i).length = 8) := by
  have hlen : (padIndex i).length =
      8 - (Nat.toDigits 10 i).length + (Nat.toDigits 10 i).length := by
    rw [padIndex, List.length_append, List.length_replicate]
  refine ⟨by omega, ?_⟩
  intro h
  have : (Nat.toDigits 10 i).length ≤ 8 :=
    (Nat.length_toDigits_le_iff (by decide) (by decide)).mpr (by omega)
  omega

theorem isDigit_plain {c : Char} (h : c.isDigit = true) : Plain c := by
  rw [Char.isDigit, Bool.and_eq_true, decide_eq_true_eq, decide_eq_true_eq] at h
  exact (isLowerHex_plain (isLowerHex_iff.mpr (.inl ⟨h.1, h.2⟩))).1

theorem quotedLength_quarantine (u : Uuid) (hu : op = u.text) (i : Nat) :
    Json.quotedLength (render (quarantineNames op i)) = 66 + (padIndex i).length := by
  have hrender : render (quarantineNames op i) =
      journalDir ++ '/' :: (op ++ '/' :: (quarantineDir ++ '/' :: padIndex i)) := by
    rw [quarantineNames, render_head, if_neg (List.cons_ne_nil _ _), render_head,
      if_neg (List.cons_ne_nil _ _), render_head, if_neg (List.cons_ne_nil _ _), render_head,
      if_pos rfl, List.append_nil]
  have hplain : ∀ c ∈ render (quarantineNames op i), Plain c := by
    have hslash : Plain '/' := ⟨by decide, by decide, by decide, by decide⟩
    have hdir : ∀ c ∈ journalDir, Plain c := plain_of_all (by decide)
    have hfiles : ∀ c ∈ quarantineDir, Plain c := plain_of_all (by decide)
    rw [hrender]
    intro c hc
    simp only [List.mem_append, List.mem_cons] at hc
    rcases hc with h | rfl | h | rfl | h | rfl | h
    · exact hdir c h
    · exact hslash
    · exact (u.chars c (hu ▸ h)).1
    · exact hslash
    · exact hfiles c h
    · exact hslash
    · exact isDigit_plain (padIndex_digit i c h)
  have hdir : journalDir.length = 20 := by decide
  have hfiles : quarantineDir.length = 5 := by decide
  rw [quotedLength_plain hplain, hrender]
  simp only [List.length_append, List.length_cons, hdir, hfiles, hu, u.length_text]
  omega

theorem length_journalText {j : DeletionJournal} {rels : List (List Char)} (hw : Written j rels) :
    JsText.length (journalText j) =
      129 + ((j.guards.map guardLength).sum + max 1 j.guards.length) +
        ((rels.zipIdx.map (fun r => 109 + (padIndex r.2).length +
          Json.quotedLength r.1)).sum + max 1 rels.length) := by
  obtain ⟨u, hu⟩ := hw.operation
  obtain ⟨d, hd⟩ := hw.created
  have hop : Json.quotedLength j.operationId = 38 := by
    rw [hu, quotedLength_plain (fun c hc => (u.chars c hc).1), u.length_text]
  have hcreated : Json.quotedLength j.createdAt = 26 := by
    have hplain : ∀ c ∈ d.text, Plain c := fits_forall d.shaped (by
      intro p hp c hc
      rw [List.mem_replicate] at hp
      exact isStamp_plain (hp.2 ▸ hc))
    rw [hd, quotedLength_plain hplain, fits_length d.shaped]
    rfl
  have hguards : (j.guards.map guardValue).map (fun v => JsText.length (Json.stringify v)) =
      j.guards.map guardLength := by
    rw [List.map_map]
    exact List.map_congr_left (fun g _ => length_guardValue g)
  have hentries : (j.entries.map entryValue).map (fun v => JsText.length (Json.stringify v)) =
      rels.zipIdx.map (fun r => 109 + (padIndex r.2).length + Json.quotedLength r.1) := by
    rw [hw.entries, makeEntries, List.map_map, List.map_map]
    refine List.map_congr_left ?_
    intro r _
    show JsText.length (Json.stringify (entryValue _)) = _
    rw [length_entryValue]
    show 43 + Json.quotedLength r.1 + Json.quotedLength (joinRelative (quarantineNames _ r.2)) = _
    rw [joinRelative_names (quarantineNames_isName hw.operation_isName r.2) (List.cons_ne_nil _ _),
      quotedLength_quarantine u hu]
    omega
  have hcount : j.entries.length = rels.length := by
    rw [hw.entries, makeEntries, List.length_map, List.length_zipIdx]
  have hversionKey : Json.quotedLength "version".toList = 9 := by decide
  have hopKey : Json.quotedLength "operationId".toList = 13 := by decide
  have hcreatedKey : Json.quotedLength "createdAt".toList = 11 := by decide
  have hguardsKey : Json.quotedLength "guards".toList = 8 := by decide
  have hentriesKey : Json.quotedLength "entries".toList = 9 := by decide
  have hone : JsText.length (Json.writeNumber 1) = 1 := by decide
  have hbracket : (units '[').length = 1 := by decide
  have hfeed : (units '\n').length = 1 := by decide
  rw [journalText, journalMembers, Json.stringify]
  simp only [Json.stringifyMembers, Json.stringify, length_append, length_cons, length_nil,
    Json.length_quote, Json.length_stringifyItems, hguards, hentries, List.length_map, hcount, hop,
    hcreated, hversionKey, hopKey, hcreatedKey, hguardsKey, hentriesKey, hone, length_punctuation,
    hbracket, hfeed]
  omega

theorem mul_length_le_sum {α : Type} {f : α → Nat} {n : Nat} (h : ∀ a, n ≤ f a) (l : List α) :
    n * l.length ≤ (l.map f).sum := by
  induction l with
  | nil => exact Nat.le_refl 0
  | cons a l ih =>
    have := h a
    rw [List.map_cons, List.sum_cons, List.length_cons, Nat.mul_succ]
    omega

theorem journalText_limit {j : DeletionJournal} {rels : List (List Char)} (hw : Written j rels) :
    JsText.length (journalText j) ≤ 1000000 ↔ journalLength j.guards rels ≤ 1000000 := by
  have hlen := length_journalText hw
  have hsum : ∀ (rs : List (List Char × Nat)),
      (rs.map (fun r => entryLength r.1)).sum ≤
        (rs.map (fun r => 109 + (padIndex r.2).length + Json.quotedLength r.1)).sum := by
    intro rs
    refine List.sum_le_sum ?_
    intro r _
    have := (length_padIndex r.2).1
    rw [entryLength]
    omega
  have hfst : rels.zipIdx.map (fun r => entryLength r.1) = rels.map entryLength := by
    rw [show (fun r : List Char × Nat => entryLength r.1) = entryLength ∘ Prod.fst from rfl,
      ← List.map_map, List.zipIdx_map_fst]
  constructor
  · intro h
    have := hsum rels.zipIdx
    rw [hfst] at this
    rw [journalLength]
    omega
  · intro h
    -- so few entries have indices of eight digits
    have hmany := mul_length_le_sum (fun rel => Nat.le_add_right 117 (Json.quotedLength rel)) rels
    change 117 * rels.length ≤ (rels.map entryLength).sum at hmany
    have heq : rels.zipIdx.map (fun r => 109 + (padIndex r.2).length + Json.quotedLength r.1) =
        rels.zipIdx.map (fun r => entryLength r.1) := by
      refine List.map_congr_left ?_
      intro r hr
      obtain ⟨-, hlt, -⟩ := List.mem_zipIdx (x := r.1) (i := r.2) hr
      rw [(length_padIndex r.2).2 (by
        rw [journalLength] at h
        omega), entryLength]
    rw [hlen, heq, hfst]
    rw [journalLength] at h
    omega

/-! ## What recovery accepts -/

/-- The limits of recovery, on what the writer is given. -/
structure Readable (guards : List DeletionGuard) (rels : List (List Char)) : Prop where
  length : journalLength guards rels ≤ 1000000
  ids : ∀ g ∈ guards, GuardReadable g

theorem parse_journalText (j : DeletionJournal) :
    Json.parse (journalText j) = some (.obj (journalMembers j)) := by
  refine Json.parse_stringify _ ['\n'] rfl ?_
  intro c hc
  cases hc
  decide

/-- Whatever recovery takes from a beginning of the journal is what was written. -/
theorem readJournal_take {root : AbsPath} {j : DeletionJournal} {rels : List (List Char)}
    (hw : Written j rels) {written : Nat} {work : JournalWork}
    (h : readJournal root j.operationId ((journalText j).take written) = some work) :
    work = { guards := j.guards, entries := j.entries } := by
  have hparse : Json.parse ((journalText j).take written) = some (.obj (journalMembers j)) ∨
      Json.parse ((journalText j).take written) = none := by
    rcases Nat.lt_or_ge (Json.stringify (.obj (journalMembers j))).length written with hall | hcut
    · left
      rw [List.take_of_length_le (by rw [journalText, List.length_append]; exact hall)]
      exact parse_journalText j
    · rw [journalText, List.take_append_of_le_length hcut]
      rcases Nat.lt_or_ge written (Json.stringify (.obj (journalMembers j))).length with hlt | hge
      · right
        refine Json.parse_unfinished (journalMembers j) (List.take_append_drop written _) ?_
        intro hnil
        rw [List.drop_eq_nil_iff] at hnil
        omega
      · -- all but the last line feed
        left
        have hnone : Json.Ends [] := by
          intro c hc
          cases hc
        rw [List.take_of_length_le hge, ← List.append_nil (Json.stringify _)]
        exact Json.parse_stringify _ [] rfl hnone
  unfold readJournal at h
  split at h
  · cases h
  · rcases hparse with hparse | hparse
    · rw [hparse, Option.bind_some, validateJournal_eq root hw] at h
      split at h
      · cases h
      · rw [Option.map_eq_some_iff] at h
        obtain ⟨gs, hgs, rfl⟩ := h
        rw [(readGuards_some hgs).1]
    · rw [hparse] at h
      cases h

/-- The journal written reads back whole just within the limits; beyond them it is
refused. -/
theorem readJournal_journalText {root : AbsPath} {j : DeletionJournal} {rels : List (List Char)}
    (hw : Written j rels) :
    (Readable j.guards rels → readJournal root j.operationId (journalText j) =
        some { guards := j.guards, entries := j.entries }) ∧
      (¬ Readable j.guards rels → readJournal root j.operationId (journalText j) = none) := by
  have hlimit := journalText_limit hw
  by_cases hlen : journalLength j.guards rels ≤ 1000000
  · have hshort : ¬ 1000000 < JsText.length (journalText j) := not_lt.mpr (hlimit.mpr hlen)
    have hcounts : ¬ (100000 < j.entries.length ∨ 100000 < j.guards.length) := by
      have hmany : 117 * rels.length ≤ (rels.map entryLength).sum :=
        mul_length_le_sum (fun rel => Nat.le_add_right 117 (Json.quotedLength rel)) rels
      have hguards : 16 * j.guards.length ≤ (j.guards.map guardLength).sum :=
        mul_length_le_sum (fun g => by rw [guardLength]; omega) j.guards
      have hcount : j.entries.length = rels.length := by
        rw [hw.entries, makeEntries, List.length_map, List.length_zipIdx]
      rw [journalLength] at hlen
      omega
    rw [readJournal, if_neg hshort, parse_journalText, Option.bind_some, validateJournal_eq root hw,
      if_neg hcounts]
    constructor
    · intro h
      rw [readGuards_all h.ids, Option.map_some]
    · intro h
      cases hread : (j.guards.map guardValue).mapM readGuard with
      | none => rw [Option.map_none]
      | some gs => exact absurd ⟨hlen, (readGuards_some hread).2⟩ h
  · have hlong : 1000000 < JsText.length (journalText j) := not_le.mp (mt hlimit.mp hlen)
    refine ⟨fun h => absurd h.length hlen, fun _ => ?_⟩
    rw [readJournal, if_pos hlong]

end Drac.Recordings
