import Drac.Recordings.SafeFile

/-
  What a path under the root may touch.

  A path that is returned is the canonical place of its longest existing part, and then the names
  that lead nowhere. Above the cut there is no link (`follow_sound`); below it nothing stands, but
  for the first name, which may be a link that leads nowhere (`Climbed.next`). So

    `confinement`     the returned path has no link below the root exactly when every link of the
                      asked path below its root leads somewhere; then what is reached through it
                      is at the path itself. And a path under the root with no link below it is
                      always returned.
-/

namespace Drac.Recordings.SafeFile

open Files PosixPath SymbolicLinks

variable {fs : FileSystem}

/-! ## Within -/

variable {root q : Path}

theorem isWithin_iff (hq : ∀ s ∈ q, IsName s) :
    isWithin root q = true ↔ root <+: q := by
  constructor
  · intro h
    by_contra houtside
    unfold isWithin at h
    obtain hup | hup := relativeTo_outside houtside
    · rw [hup] at h
      exact absurd h (by decide)
    · have hprefix := List.isPrefixOf_iff_prefix.mpr hup
      have hne : relativeTo root q ≠ [] := by
        intro hnil
        rw [hnil] at hup
        exact absurd (List.prefix_nil.mp hup) (by decide)
      simp [ hprefix, hne] at h
  · rintro ⟨rest, rfl⟩
    have hrest : ∀ s ∈ rest, IsName s := fun s hs => hq s (List.mem_append_right _ hs)
    unfold isWithin
    dsimp only
    rw [relativeTo_under, isAbsolute_render hrest]
    by_cases hnil : rest = []
    · subst hnil
      rfl
    · have hup : render rest ≠ ['.', '.'] := by
        intro h
        have hnames := namesOf_render (fun s hs => (hrest s hs).2.2.2) hnil
        rw [h] at hnames
        exact (hrest ['.', '.'] (by rw [← hnames]; decide)).2.2.1 rfl
      have hclimb : (['.', '.', '/'].isPrefixOf (render rest)) = false := by
        rw [Bool.eq_false_iff, ne_eq, List.isPrefixOf_iff_prefix]
        intro h
        obtain ⟨q, rfl, -⟩ := prefix_render (s := ['.', '.']) (by decide) hrest h
        exact (hrest _ List.mem_cons_self).2.2.1 rfl
      simp [hup, hclimb]

/-! ## The climb -/

theorem realpath_nil (fs : FileSystem) : fs.realpath [] = some [] := by
  unfold FileSystem.realpath
  cases fs.maxLinks <;> rfl

variable {p c : Path}

theorem realpath_sound (hp : ∀ s ∈ p, IsName s) (h : fs.realpath p = some c) :
    Sound fs.tree c := by
  obtain ⟨⟨c', left⟩, hfollow, rfl⟩ := Option.map_eq_some_iff.mp h
  exact follow_sound fs.root _ _ _ (sound_root fs.root) (fun s hs => (hp s hs).2.2.2) _ _ hfollow

theorem exists_of_prefix (h : fs.existsSync (p ++ q) = true) :
    fs.existsSync p = true := by
  unfold FileSystem.existsSync FileSystem.realpath at *
  rw [follow_append] at h
  cases hp : follow fs.tree fs.maxLinks [] p with
  | none => rw [hp] at h; cases h
  | some r => rfl

/-- The longest part of a path that leads somewhere, and where. -/
structure Climbed (fs : FileSystem) (p before after c : Path) : Prop where
  split : p = before ++ after
  leads : fs.realpath before = some c
  stops : ∀ s rest, after = s :: rest → fs.existsSync (before ++ [s]) = false

theorem climb_spec (p : Path) : ∀ n ≤ p.length,
    (∀ s rest, p.drop n = s :: rest → fs.existsSync (p.take n ++ [s]) = false) →
    ∃ before after c, Climbed fs p before after c ∧ climb fs p n = c ++ after := by
  intro n
  induction n with
  | zero =>
    intro _ hstops
    refine ⟨[], p, [], ⟨rfl, realpath_nil fs, hstops⟩, ?_⟩
    rw [climb, List.take_zero, realpath_nil]
    rfl
  | succ n ih =>
    intro hn hstops
    by_cases hexists : fs.existsSync (p.take (n + 1)) = true
    · obtain ⟨c, hc⟩ := Option.isSome_iff_exists.mp hexists
      refine ⟨p.take (n + 1), p.drop (n + 1), c, ⟨(List.take_append_drop _ _).symm, hc, hstops⟩, ?_⟩
      rw [climb, if_pos hexists, hc]
      rfl
    · rw [climb, if_neg hexists]
      refine ih (by omega) ?_
      intro s rest hdrop
      have hs : p.take n ++ [s] = p.take (n + 1) := by
        have hlt : n < p.length := by omega
        have hget : p[n] = s := by
          have hcons := List.drop_eq_getElem_cons hlt
          rw [hdrop] at hcons
          exact (List.cons.inj hcons).1.symm
        rw [← hget, List.take_append_getElem hlt]
      rw [hs]
      exact Bool.eq_false_iff.mpr hexists

theorem resolveThroughExistingParent_spec (fs : FileSystem) (p : Path) :
    ∃ before after c, Climbed fs p before after c ∧
      resolveThroughExistingParent fs p = c ++ after := by
  apply climb_spec p p.length (Nat.le_refl _)
  intro s rest h
  rw [List.drop_length] at h
  cases h

theorem Climbed.unique {p before after c before' after' c' : Path}
    (h : Climbed fs p before after c) (h' : Climbed fs p before' after' c') :
    before = before' ∧ after = after' ∧ c = c' := by
  have hlength : ∀ {b a d b' a' d' : Path}, Climbed fs p b a d → Climbed fs p b' a' d' →
      b.length ≤ b'.length := by
    intro b a d b' a' d' h h'
    by_contra hlt
    have hprefix : b' <+: b := by
      apply List.prefix_of_prefix_length_le ⟨a', h'.split.symm⟩ ⟨a, h.split.symm⟩
      omega
    obtain ⟨u, rfl⟩ := hprefix
    cases u with
    | nil => simp at hlt
    | cons s u =>
      have hafter : a' = s :: (u ++ a) := by
        have heq := h'.split.symm.trans h.split
        rw [List.append_assoc] at heq
        exact List.append_cancel_left heq
      have hstop := h'.stops s _ hafter
      have hleads : fs.existsSync (b' ++ s :: u) = true := by
        rw [FileSystem.existsSync, h.leads]
        rfl
      rw [show b' ++ s :: u = b' ++ [s] ++ u by simp] at hleads
      rw [ exists_of_prefix hleads] at hstop
      cases hstop
  have hle := hlength h h'
  have hge := hlength h' h
  have hsplit := h.split.symm.trans h'.split
  obtain ⟨hbefore, hafter⟩ := List.append_inj hsplit (by omega)
  subst hbefore
  refine ⟨rfl, hafter, ?_⟩
  exact Option.some.inj (h.leads.symm.trans h'.leads)

/-! ## Links -/

/-- No link stands on the path below the root. -/
def NoLinks (fs : FileSystem) (root p : Path) : Prop :=
  ∀ q s rest, p = root ++ q ++ s :: rest → fs.hasLink (root ++ q ++ [s]) = false

/-- Every link that is met on the way from the root to the file leads somewhere. -/
def LinksLead (fs : FileSystem) (root file : Path) : Prop :=
  ∀ q s rest, file = root ++ q ++ s :: rest → fs.isLink (root ++ q ++ [s]) = true →
    fs.existsSync (root ++ q ++ [s]) = true

/-- No link is met on the way from the root to the file. -/
def PlainBelow (fs : FileSystem) (root file : Path) : Prop :=
  ∀ q s rest, file = root ++ q ++ s :: rest → fs.isLink (root ++ q ++ [s]) = false

theorem linksLead_of_take {root below : Path}
    (h : ∀ k < below.length, fs.isLink (root ++ below.take (k + 1)) = true →
      fs.existsSync (root ++ below.take (k + 1)) = true) : LinksLead fs root (root ++ below) := by
  intro q s rest hsplit hlink
  rw [List.append_assoc] at hsplit
  have hbelow : below = q ++ s :: rest := List.append_cancel_left hsplit
  have htake : below.take (q.length + 1) = q ++ [s] := by
    rw [hbelow, List.take_length_add_append]
    rfl
  have hk := h q.length (by rw [hbelow, List.length_append, List.length_cons]; omega)
  rw [htake, ← List.append_assoc] at hk
  exact hk hlink

theorem hasLink_of_node {n : Node Leaf} (h : (p, n) ∈ fs.tree.nodes)
    (hn : ∀ target, n ≠ .file (.link target)) : fs.hasLink p = false := by
  unfold FileSystem.hasLink
  rw [FileTree.node_eq_some.mpr h]
  cases n with
  | dir => rfl
  | file leaf =>
    cases leaf with
    | data => rfl
    | link target => exact absurd rfl (hn target)

theorem hasLink_of_real (h : Real fs.tree p) : fs.hasLink p = false := by
  obtain h | h := h
  · exact hasLink_of_node h (fun _ h => nomatch h)
  · exact hasLink_of_node h (fun _ h => nomatch h)

theorem hasLink_of_notMem (h : p ∉ fs.tree.paths) : fs.hasLink p = false := by
  unfold FileSystem.hasLink
  rw [FileTree.node_eq_none.mpr h]

theorem hasLink_above {p a b : Path} {s : Name} (h : Real fs.tree p) (hsplit : p = a ++ s :: b) :
    fs.hasLink (a ++ [s]) = false := by
  have hmem : p ∈ fs.tree.paths := h.elim (fun h => List.mem_map_of_mem (f := Prod.fst) h)
    (fun h => List.mem_map_of_mem (f := Prod.fst) h)
  cases b with
  | nil => exact hsplit ▸ hasLink_of_real h
  | cons s' b =>
    apply hasLink_of_real
    left
    apply fs.tree.dir_of_prefix (s' :: b) (List.cons_ne_nil _ _)
    rw [List.append_assoc, List.singleton_append, ← hsplit]
    exact hmem

theorem hasLink_below {p rest : Path} (h : ¬ Real fs.tree p) (hne : rest ≠ []) :
    fs.hasLink (p ++ rest) = false := by
  apply hasLink_of_notMem
  intro hmem
  exact h (.inl (fs.tree.dir_of_prefix rest hne hmem))

theorem Climbed.next {p before rest c : Path} {s : Name}
    (h : Climbed fs p before (s :: rest) c) (hp : ∀ s ∈ p, IsName s) :
    ¬ Real fs.tree (c ++ [s]) ∧ fs.isLink (before ++ [s]) = fs.hasLink (c ++ [s]) := by
  have hs : IsName s := hp s (h.split ▸ List.mem_append_right _ List.mem_cons_self)
  constructor
  · intro hreal
    have hnolink : ∀ target, fs.tree.node (c ++ [s]) ≠ some (.file (.link target)) := by
      intro target hnode
      have hlink : fs.hasLink (c ++ [s]) = true := by rw [FileSystem.hasLink, hnode]
      rw [hasLink_of_real hreal] at hlink
      cases hlink
    obtain ⟨⟨c', left⟩, hfollow, rfl⟩ := Option.map_eq_some_iff.mp h.leads
    have hstop := h.stops s rest rfl
    unfold FileSystem.existsSync FileSystem.realpath at hstop
    rw [follow_append, hfollow, Option.bind_some] at hstop
    obtain ⟨-, hnot⟩ | ⟨hsome, -⟩ := follow_one hs hnolink left
    · exact hnot hreal
    · rw [hsome] at hstop
      cases hstop
  · unfold FileSystem.isLink
    rw [List.dropLast_concat, h.leads, List.getLast?_concat]

theorem Climbed.root_cases {root q before after c : Path}
    (h : Climbed fs (root ++ q) before after c) :
    (∃ u r, before = root ++ u ∧ q = u ++ after ∧ fs.realpath root = some r ∧
      resolveThroughExistingParent fs root = r) ∨
    ∃ s v, root = before ++ s :: v ∧ after = s :: (v ++ q) ∧
      resolveThroughExistingParent fs root = c ++ s :: v := by
  have hlead : ∀ {b a d : Path}, Climbed fs root b a d →
      resolveThroughExistingParent fs root = d ++ a := by
    intro b a d hclimbed
    obtain ⟨b', a', d', hclimbed', heq⟩ := resolveThroughExistingParent_spec fs root
    obtain ⟨-, rfl, rfl⟩ := hclimbed.unique hclimbed'
    exact heq
  obtain habove | hbelow := List.prefix_or_prefix_of_prefix (⟨q, rfl⟩ : root <+: root ++ q)
    (⟨after, h.split.symm⟩ : before <+: root ++ q)
  · left
    obtain ⟨u, rfl⟩ := habove
    have hexists : fs.existsSync root = true := by
      apply exists_of_prefix (q := u)
      rw [FileSystem.existsSync, h.leads]
      rfl
    obtain ⟨r, hr⟩ := Option.isSome_iff_exists.mp hexists
    have hq : q = u ++ after := by
      have hsplit := h.split
      rw [List.append_assoc] at hsplit
      exact List.append_cancel_left hsplit
    refine ⟨u, r, rfl, hq, hr, ?_⟩
    have hclimbed : Climbed fs root root [] r :=
      ⟨(List.append_nil root).symm, hr, fun s rest h => nomatch h⟩
    rw [hlead hclimbed, List.append_nil]
  · obtain ⟨v, rfl⟩ := hbelow
    have hafter : after = v ++ q := by
      have hsplit := h.split
      rw [List.append_assoc] at hsplit
      exact (List.append_cancel_left hsplit).symm
    cases v with
    | nil =>
      left
      have hclimbed : Climbed fs (before ++ []) (before ++ []) [] c :=
        ⟨(List.append_nil _).symm, by rw [List.append_nil]; exact h.leads, fun s rest h => nomatch h⟩
      refine ⟨[], c, by simp, by simp [hafter], hclimbed.leads, ?_⟩
      rw [hlead hclimbed, List.append_nil]
    | cons s v =>
      right
      refine ⟨s, v, rfl, hafter, ?_⟩
      apply hlead (b := before)
      exact ⟨rfl, h.leads, fun s' rest' heq => h.stops s' (rest' ++ q) (by rw [hafter, heq]; rfl)⟩

/-- **Where the path under the root ends has no link below the root exactly when every link on
the way leads somewhere.** -/
theorem noLinks_iff (hnames : ∀ s ∈ root ++ q, IsName s)
    (hwithin : resolveThroughExistingParent fs root <+:
      resolveThroughExistingParent fs (root ++ q)) :
    NoLinks fs (resolveThroughExistingParent fs root)
        (resolveThroughExistingParent fs (root ++ q)) ↔
      LinksLead fs root (root ++ q) := by
  obtain ⟨before, after, c, hclimbed, heq⟩ := resolveThroughExistingParent_spec fs (root ++ q)
  rw [heq] at hwithin ⊢
  have hbefore : ∀ s ∈ before, IsName s :=
    fun s hs => hnames s (hclimbed.split ▸ List.mem_append_left _ hs)
  have hc : Real fs.tree c := (realpath_sound hbefore hclimbed.leads).real
  obtain ⟨u, r, rfl, rfl, hr, hroot⟩ | ⟨s, v, rfl, rfl, hroot⟩ := hclimbed.root_cases
  · rw [hroot] at hwithin ⊢
    have hrreal : Real fs.tree r :=
      (realpath_sound (fun s hs => hnames s (List.mem_append_left _ hs)) hr).real
    constructor
    · intro hno q' s' rest' hsplit hlink
      by_contra hnot
      obtain ⟨d, hd⟩ : ∃ d, fs.realpath (root ++ q') = some d := by
        unfold FileSystem.isLink at hlink
        rw [List.dropLast_concat] at hlink
        cases hreal : fs.realpath (root ++ q') with
        | none => rw [hreal] at hlink; cases hlink
        | some d => exact ⟨d, rfl⟩
      have hcut : Climbed fs (root ++ (u ++ after)) (root ++ q') (s' :: rest') d := by
        refine ⟨hsplit, hd, ?_⟩
        intro s'' rest'' heq'
        obtain ⟨rfl, -⟩ := List.cons.inj heq'
        exact Bool.eq_false_iff.mpr hnot
      obtain ⟨hsame, rfl, rfl⟩ := hclimbed.unique hcut
      have hthere : fs.hasLink (c ++ [s']) = true := by
        rw [← (hcut.next hnames).2]
        exact hlink
      obtain hin | hout := List.prefix_or_prefix_of_prefix hwithin
        (⟨s' :: rest', rfl⟩ : c <+: c ++ s' :: rest')
      · obtain ⟨w, rfl⟩ := hin
        rw [hno w s' rest' rfl] at hthere
        cases hthere
      · obtain ⟨w, rfl⟩ := hout
        obtain ⟨z, hz⟩ := hwithin
        rw [List.append_assoc] at hz
        cases w with
        | nil =>
          rw [List.append_nil] at hno
          have hfree := hno [] s' rest' (by rw [List.append_nil])
          rw [List.append_nil, hthere] at hfree
          cases hfree
        | cons s'' w =>
          obtain ⟨rfl, -⟩ := List.cons.inj (List.append_cancel_left hz)
          rw [hasLink_above hrreal rfl] at hthere
          cases hthere
    · intro hlead q' s' rest' hsplit
      obtain hin | hout := List.prefix_or_prefix_of_prefix
        (⟨rest', by rw [hsplit]; simp⟩ : r ++ q' ++ [s'] <+: c ++ after)
        (⟨after, rfl⟩ : c <+: c ++ after)
      · obtain ⟨w, rfl⟩ := hin
        exact hasLink_above hc (b := w) (by simp)
      · obtain ⟨w, hw⟩ := hout
        cases w with
        | nil =>
          rw [← hw, List.append_nil]
          exact hasLink_of_real hc
        | cons s'' w =>
          have hafter : after = s'' :: (w ++ rest') := by
            have hall : c ++ after = r ++ q' ++ [s'] ++ rest' := by rw [hsplit]; simp
            rw [← hw, List.append_assoc] at hall
            exact List.append_cancel_left hall
          subst hafter
          obtain ⟨hnot, hnext⟩ := hclimbed.next hnames
          rw [← hw]
          cases w with
          | nil =>
            rw [← hnext, Bool.eq_false_iff]
            intro hlink
            have hexists := hlead u s'' ([] ++ rest') (by simp) hlink
            rw [hclimbed.stops s'' _ rfl] at hexists
            cases hexists
          | cons t w =>
            rw [show c ++ s'' :: t :: w = c ++ [s''] ++ t :: w by simp]
            exact hasLink_below hnot (List.cons_ne_nil _ _)
  · rw [hroot]
    have hnot := (hclimbed.next hnames).1
    constructor
    · intro _ q' s' rest' _ hlink
      exfalso
      have hreaches : fs.existsSync (before ++ s :: v ++ q') = true := by
        unfold FileSystem.isLink at hlink
        rw [List.dropLast_concat] at hlink
        rw [FileSystem.existsSync]
        cases hreal : fs.realpath (before ++ s :: v ++ q') with
        | none => rw [hreal] at hlink; cases hlink
        | some d => rfl
      rw [show before ++ s :: v ++ q' = before ++ [s] ++ (v ++ q') by simp] at hreaches
      have hstop := hclimbed.stops s _ rfl
      rw [ exists_of_prefix hreaches] at hstop
      cases hstop
    · intro _ q' s' rest' _
      rw [show c ++ s :: v ++ q' ++ [s'] = c ++ [s] ++ (v ++ q' ++ [s']) by simp]
      exact hasLink_below hnot (by simp)

theorem leads_to_itself (hp : ∀ s ∈ p, IsName s)
    (h : ∀ a s b, p = a ++ s :: b → fs.hasLink (a ++ [s]) = false) {d : Path}
    (hd : fs.realpath p = some d) : d = p := by
  obtain ⟨r, hfollow, rfl⟩ := Option.map_eq_some_iff.mp hd
  have hplain := follow_plain (t := fs.tree) [] fs.maxLinks p hp ?_ r hfollow
  · rw [hplain, List.nil_append]
  · intro k hk target hnode
    rw [List.nil_append] at hnode
    have hfree := h (p.take k) p[k] (p.drop (k + 1)) (by simp)
    rw [List.take_append_getElem hk, FileSystem.hasLink, hnode] at hfree
    cases hfree

theorem leads_under_root {root r p d : Path} (hroot : ∀ s ∈ root, IsName s)
    (hr : fs.realpath root = some r) (hp : ∀ s ∈ p, IsName s) (hunder : r <+: p)
    (hno : NoLinks fs r p) (hd : fs.realpath p = some d) : d = p := by
  have hreal : Real fs.tree r := (realpath_sound hroot hr).real
  refine leads_to_itself hp ?_ hd
  intro a s b hsplit
  obtain hin | hout := List.prefix_or_prefix_of_prefix hunder
    (⟨b, by rw [hsplit]; simp⟩ : a ++ [s] <+: p)
  · obtain ⟨w, hw⟩ := hin
    cases w using List.reverseRecOn with
    | nil =>
      rw [← hw, List.append_nil]
      exact hasLink_of_real hreal
    | append_singleton w t =>
      rw [← List.append_assoc] at hw
      obtain ⟨rfl, hlast⟩ := List.append_inj' hw rfl
      obtain rfl := (List.cons.inj hlast).1
      exact hno w t b hsplit
  · obtain ⟨w, rfl⟩ := hout
    exact hasLink_above hreal (b := w) (by simp)

variable {r : Path}

theorem realpath_under (hr : fs.realpath root = some r) : ∀ (u : Path),
    (∀ s ∈ u, IsName s) → PlainBelow fs root (root ++ u) →
    ∀ {d}, fs.realpath (root ++ u) = some d → d = r ++ u := by
  intro u
  induction u using List.reverseRecOn with
  | nil =>
    intro _ _ d hd
    rw [List.append_nil] at hd ⊢
    exact Option.some.inj (hd.symm.trans hr)
  | append_singleton u s ih =>
    intro hu hplain d hd
    obtain ⟨⟨e, left⟩, hfollow, rfl⟩ := Option.map_eq_some_iff.mp hd
    rw [← List.append_assoc, follow_append] at hfollow
    obtain ⟨⟨c, left'⟩, hbefore, hlast⟩ := Option.bind_eq_some_iff.mp hfollow
    have hc : fs.realpath (root ++ u) = some c := by rw [FileSystem.realpath, hbefore]; rfl
    have hcu : c = r ++ u := by
      refine ih (fun s hs => hu s (List.mem_append_left _ hs)) ?_ hc
      intro q s' rest hsplit
      exact hplain q s' (rest ++ [s]) (by rw [← List.append_assoc, hsplit]; simp)
    have hs : IsName s := hu s (List.mem_append_right _ List.mem_cons_self)
    have hnolink : ∀ target, fs.tree.node (c ++ [s]) ≠ some (.file (.link target)) := by
      intro target hnode
      have hfree := hplain u s [] (by simp)
      unfold FileSystem.isLink at hfree
      rw [List.dropLast_concat, hc, List.getLast?_concat] at hfree
      simp only [FileSystem.hasLink, hnode] at hfree
      cases hfree
    obtain ⟨hnone, -⟩ | ⟨hsome, -⟩ := follow_one hs hnolink left'
    · rw [hnone] at hlast
      cases hlast
    · rw [hsome] at hlast
      cases hlast
      rw [hcu, List.append_assoc]

theorem resolve_plain (hnames : ∀ s ∈ root ++ q, IsName s)
    (hplain : PlainBelow fs root (root ++ q)) :
    resolveThroughExistingParent fs (root ++ q) = resolveThroughExistingParent fs root ++ q := by
  obtain ⟨before, after, c, hclimbed, heq⟩ := resolveThroughExistingParent_spec fs (root ++ q)
  rw [heq]
  obtain ⟨u, r, rfl, rfl, hr, hroot⟩ | ⟨s, v, rfl, rfl, hroot⟩ := hclimbed.root_cases
  · have hu : ∀ s ∈ u, IsName s :=
      fun s hs => hnames s (List.mem_append_right _ (List.mem_append_left _ hs))
    have hc := realpath_under hr u hu (fun q' s' rest' hsplit => hplain q' s' (rest' ++ after)
      (by rw [← List.append_assoc, hsplit]; simp)) hclimbed.leads
    rw [hroot, hc, List.append_assoc]
  · rw [hroot]
    simp

/-! ## The helper -/

theorem canonical_names (hp : ∀ s ∈ p, IsName s) :
    ∀ s ∈ resolveThroughExistingParent fs p, IsName s := by
  obtain ⟨before, after, c, hclimbed, heq⟩ := resolveThroughExistingParent_spec fs p
  rw [heq]
  intro s hs
  rcases List.mem_append.mp hs with hs | hs
  · have hbefore : ∀ s ∈ before, IsName s :=
      fun s hs => hp s (hclimbed.split ▸ List.mem_append_left _ hs)
    exact (realpath_sound hbefore hclimbed.leads).plain s hs
  · exact hp s (hclimbed.split ▸ List.mem_append_right _ hs)

theorem resolve_existing (hr : fs.realpath root = some r) :
    resolveThroughExistingParent fs root = r := by
  obtain ⟨before, after, c, hclimbed, heq⟩ := resolveThroughExistingParent_spec fs root
  have hwhole : Climbed fs root root [] r :=
    ⟨(List.append_nil root).symm, hr, fun s rest h => nomatch h⟩
  obtain ⟨-, rfl, rfl⟩ := hclimbed.unique hwhole
  rw [heq, List.append_nil]

theorem ensureFileUnderRoot_ok {cwd : AbsPath} {root filePath : List Char} :
    ensureFileUnderRoot fs cwd root filePath = .ok p ↔
      (resolvedRoot cwd root).names <+: (resolvedFile cwd root filePath).names ∧
      resolveThroughExistingParent fs (resolvedRoot cwd root).names <+: p ∧
      p = resolveThroughExistingParent fs (resolvedFile cwd root filePath).names := by
  have hfile := (resolvedFile cwd root filePath).plain
  have hcanonical : ∀ s ∈ resolveThroughExistingParent fs (resolvedFile cwd root filePath).names,
      IsName s := canonical_names hfile
  unfold ensureFileUnderRoot
  simp only [Bool.not_eq_true']
  rw [← isWithin_iff hfile]
  cases isWithin (resolvedRoot cwd root).names (resolvedFile cwd root filePath).names with
  | false => simp
  | true =>
    have hiff := @isWithin_iff (resolveThroughExistingParent fs (resolvedRoot cwd root).names) _
      hcanonical
    cases hwithin : isWithin (resolveThroughExistingParent fs (resolvedRoot cwd root).names)
        (resolveThroughExistingParent fs (resolvedFile cwd root filePath).names) with
    | false =>
      rw [hwithin] at hiff
      simp only [Bool.true_eq_false, if_false, if_true]
      constructor
      · intro h; cases h
      · rintro ⟨-, hunder, rfl⟩
        exact absurd (hiff.mpr hunder) (by decide)
    | true =>
      simp only [Bool.true_eq_false, if_false, Except.ok.injEq, true_and]
      constructor
      · rintro rfl
        exact ⟨hiff.mp hwithin, rfl⟩
      · rintro ⟨-, rfl⟩
        rfl

/-- **Confinement.** A path that is returned lies under the canonical root. It has no link below
the root exactly when every link on the way from the root to the asked file leads somewhere; and
then, if the root is there, what it leads to is at the path itself. A path that is lexically under
the root and meets no link below it is returned, at its place under the canonical root. -/
theorem confinement (fs : FileSystem) (cwd : AbsPath) (root filePath : List Char) :
    (∀ p, ensureFileUnderRoot fs cwd root filePath = .ok p →
      resolveThroughExistingParent fs (resolvedRoot cwd root).names <+: p ∧
      (NoLinks fs (resolveThroughExistingParent fs (resolvedRoot cwd root).names) p ↔
        LinksLead fs (resolvedRoot cwd root).names (resolvedFile cwd root filePath).names) ∧
      (LinksLead fs (resolvedRoot cwd root).names (resolvedFile cwd root filePath).names →
        fs.existsSync (resolvedRoot cwd root).names = true →
        ∀ d, fs.realpath p = some d → d = p)) ∧
    ∀ q, (resolvedFile cwd root filePath).names = (resolvedRoot cwd root).names ++ q →
      PlainBelow fs (resolvedRoot cwd root).names (resolvedFile cwd root filePath).names →
      ensureFileUnderRoot fs cwd root filePath =
        .ok (resolveThroughExistingParent fs (resolvedRoot cwd root).names ++ q) := by
  have hfile := (resolvedFile cwd root filePath).plain
  have hroot := (resolvedRoot cwd root).plain
  constructor
  · intro p h
    obtain ⟨⟨q, hq⟩, hwithin, hp⟩ := ensureFileUnderRoot_ok.mp h
    have hiff : NoLinks fs (resolveThroughExistingParent fs (resolvedRoot cwd root).names) p ↔
        LinksLead fs (resolvedRoot cwd root).names (resolvedFile cwd root filePath).names := by
      rw [hp, ← hq] at hwithin ⊢
      exact noLinks_iff (hq ▸ hfile) hwithin
    refine ⟨hwithin, hiff, ?_⟩
    intro hlead hexists d hd
    obtain ⟨r, hr⟩ := Option.isSome_iff_exists.mp hexists
    have hno := hiff.mpr hlead
    rw [resolve_existing hr] at hwithin hno
    have hplain : ∀ s ∈ p, IsName s := by
      rw [hp]
      exact canonical_names hfile
    exact leads_under_root hroot hr hplain hwithin hno hd
  · intro q hq hplain
    rw [hq] at hplain
    have hplace := resolve_plain (hq ▸ hfile) hplain
    apply ensureFileUnderRoot_ok.mpr
    rw [hq]
    exact ⟨⟨q, rfl⟩, ⟨q, rfl⟩, hplace.symm⟩

/-- `/rec` with a directory of a camera, a link to it and a link to what is not there. -/
def recordings : FileSystem where
  tree :=
    { nodes :=
        [([], .dir), ([['r', 'e', 'c']], .dir), ([['r', 'e', 'c'], ['c', 'a', 'm']], .dir),
          ([['r', 'e', 'c'], ['l', 'a', 's', 't']], .file (.link ['c', 'a', 'm'])),
          ([['r', 'e', 'c'], ['o', 'l', 'd']], .file (.link ['/', 'm', 'n', 't', '/', 'x']))]
      nodup := by decide
      closed := closed_of_dropLast (by decide) }
  root := List.mem_cons_self

/-- The link that leads on is followed, and the new file is made in the camera's own directory. -/
theorem confinement_followed :
    NoLinks recordings
      (resolveThroughExistingParent recordings (resolvedRoot ⟨[], by simp⟩ ['/', 'r', 'e', 'c']).names)
      [['r', 'e', 'c'], ['c', 'a', 'm'], ['n']] := by
  have hfile : (resolvedFile ⟨[], by simp⟩ ['/', 'r', 'e', 'c'] ['l', 'a', 's', 't', '/', 'n']).names =
      [['r', 'e', 'c']] ++ [['l', 'a', 's', 't'], ['n']] := by decide +kernel
  have hok : ensureFileUnderRoot recordings ⟨[], by simp⟩ ['/', 'r', 'e', 'c']
      ['l', 'a', 's', 't', '/', 'n'] = .ok [['r', 'e', 'c'], ['c', 'a', 'm'], ['n']] := by
    apply ensureFileUnderRoot_ok.mpr
    decide +kernel
  have hroot : (resolvedRoot ⟨[], by simp⟩ ['/', 'r', 'e', 'c']).names = [['r', 'e', 'c']] := by
    decide +kernel
  apply ((confinement _ _ _ _).1 _ hok).2.1.mpr
  rw [hfile, hroot]
  apply linksLead_of_take
  decide +kernel

/-- A link that leads nowhere yet is returned, and leads out of the root once it leads on. -/
theorem dangling_link : ¬ ∀ (fs : FileSystem) (cwd : AbsPath) (root filePath : List Char) (p : Path),
    ensureFileUnderRoot fs cwd root filePath = .ok p →
    NoLinks fs (resolveThroughExistingParent fs (resolvedRoot cwd root).names) p := by
  intro h
  have hok : ensureFileUnderRoot recordings ⟨[], by simp⟩ ['/', 'r', 'e', 'c'] ['o', 'l', 'd'] =
      .ok [['r', 'e', 'c'], ['o', 'l', 'd']] := by
    apply ensureFileUnderRoot_ok.mpr
    decide +kernel
  have hroot : resolveThroughExistingParent recordings
      (resolvedRoot ⟨[], by simp⟩ ['/', 'r', 'e', 'c']).names = [['r', 'e', 'c']] := by
    decide +kernel
  have hno := h _ _ _ _ _ hok
  rw [hroot] at hno
  have hfree := hno [] ['o', 'l', 'd'] [] rfl
  exact absurd hfree (by decide +kernel)

end Drac.Recordings.SafeFile
