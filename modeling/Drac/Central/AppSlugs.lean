import Mathlib.Data.List.Destutter
import Mathlib.Logic.Function.Basic
import Drac.Lib.Runs

/-
  The slug of an installation's app, and the apps the build agent keeps under it.

  Correspondence:
    `server.js`         slugify, deriveAppSlug, pushAppToBuildAgent ↔ the same names;
        handleGenerateApp, handlePatchApp ↔ the labels `generate`, `edit`
    `build-agent.mjs`   writeClient, processQueue ↔ the same names; POST /builds ↔ `enqueue`
  `String.prototype.normalize` and `toLowerCase` are the language's, any functions here. The
  name, the address and the package of a client are those of the record, whatever they are,
  and `accepts` is what APP_NAME_RE, API_URL_RE and PKG_RE say of them. A build is one step,
  and logos, colours and the log of the jobs are left out.

  `deriveAppSlug` pads and cuts what `slugify` would make of the id (`deriveAppSlug_eq`). Two
  ids have apps of their own exactly where neither brings them together (`ownApps_iff`).
-/

namespace Drac.Central.AppSlugs

open Runs

abbrev Text := List Char

/-! ## The functions -/

/-- `[a-z0-9]`. -/
def isPlain (c : Char) : Bool := 'a' ≤ c && c ≤ 'z' || '0' ≤ c && c ≤ '9'

/-- No hyphen after a hyphen. -/
def NotBoth (a b : Char) : Prop := ¬ (a = '-' ∧ b = '-')

instance decidableNotBoth : DecidableRel NotBoth := fun _ _ => inferInstanceAs (Decidable (¬ _))

/-- `.replace(/p+/g, '-')`, where a hyphen is `p`: of a run of hyphens the first stays. -/
def hyphenate (p : Char → Bool) (s : Text) : Text :=
  (s.map (fun c => if p c then '-' else c)).destutter NotBoth

def bothEnds (f : Text → Text) (s : Text) : Text := (f (f s).reverse).reverse

def dropHyphens (s : Text) : Text := s.dropWhile (· = '-')

/-- One hyphen at the beginning. -/
def dropHyphen (s : Text) : Text := if s.head? = some '-' then s.tail else s

/-- Lower-case letters and digits, with a hyphen for each run of anything else between. -/
def slugForm (s : Text) : Text := bothEnds dropHyphens (hyphenate (fun c => !isPlain c) s)

section Language

variable (nfd toLowerCase : Text → Text)

/-- `random` is the hexadecimal text of four random bytes. -/
def slugify (random value : Text) : Text :=
  let letters := (nfd value).filter (fun c => ¬ (0x300 ≤ c.toNat ∧ c.toNat ≤ 0x36f))
  let normalized := hyphenate (· = '-') (slugForm (toLowerCase letters))
  if normalized = [] then "cliente-".toList ++ random else normalized

def pad (s : Text) : Text :=
  if s.length < 2 then "app-".toList ++ (if s = [] then "cliente".toList else s) else s

def deriveAppSlug (id : Text) : Text :=
  let spaced := (toLowerCase id).map (fun c => if isPlain c || c = '-' then c else '-')
  (pad (bothEnds dropHyphen (hyphenate (· = '-') spaced))).take 39

/-! ## The build agent -/

/-- `clients/<slug>/config.json`. -/
structure Client where
  appName : Text
  apiUrl : Text
  packageId : Text
  deriving DecidableEq

structure Agent where
  clients : Text → Option Client := fun _ => none
  queue : List Text := []
  /-- What each published app was built from. -/
  apks : Text → Option Client := fun _ => none

/-- `SLUG_RE`. -/
def slugRe (slug : Text) : Bool :=
  2 ≤ slug.length && slug.length ≤ 39 && slug.head?.all isPlain &&
    slug.all (fun c => isPlain c || c = '-')

def writeClient (accepts : Client → Bool) (agent : Agent) (slug : Text) (client : Client) :
    Option Agent :=
  if slugRe slug && accepts client then
    some { agent with clients := Function.update agent.clients slug (some client) }
  else none

def enqueue (agent : Agent) (slug : Text) : Agent :=
  if slugRe slug && (agent.clients slug).isSome then
    { agent with queue := agent.queue ++ [slug] }
  else agent

/-- The build at the head of the queue ends, well or not. -/
def processQueue (agent : Agent) (ok : Bool) : Option Agent :=
  match agent.queue with
  | [] => none
  | slug :: queue => some { agent with
      queue := queue
      apks := if ok then Function.update agent.apks slug (agent.clients slug) else agent.apks }

structure System where
  agent : Agent := {}
  /-- `item.app.lastBuildAt` of each installation. -/
  hadBuild : Text → Bool := fun _ => false

/-- `client` is `none` where no address is known or the agent is not reached, and `queued`
tells whether the second request reaches it. -/
def pushAppToBuildAgent (accepts : Client → Bool) (s : System) (id : Text)
    (client : Option Client) (queued : Bool) : System :=
  let slug := deriveAppSlug toLowerCase id
  match client.bind (writeClient accepts s.agent slug) with
  | none => s
  | some agent =>
    { agent := if queued then enqueue agent slug else agent
      hadBuild := Function.update s.hadBuild id true }

inductive Label where
  | generate (id : Text) (client : Option Client) (queued : Bool)
  | edit (id : Text) (client : Option Client) (queued : Bool)
  | built (ok : Bool)

def step (accepts : Client → Bool) (s : System) : Label → Option System
  | .generate id client queued => some (pushAppToBuildAgent toLowerCase accepts s id client queued)
  | .edit id client queued =>
    some (if s.hadBuild id then pushAppToBuildAgent toLowerCase accepts s id client queued else s)
  | .built ok => (processQueue s.agent ok).map fun agent => { s with agent := agent }

def agentMachine (accepts : Client → Bool) : Machine System Label where
  init s := s = {}
  step := step toLowerCase accepts

/-! ## The statement -/

/-- The requests are all for the app of one installation; any build may end. -/
def AllOf (id : Text) (_ : System) : Label → Prop
  | .generate other _ _ | .edit other _ _ => other = id
  | .built _ => True

/-- The client under a slug is as it was, and so is its app, unless that was built from it. -/
def Kept (slug : Text) (s t : System) : Prop :=
  t.agent.clients slug = s.agent.clients slug ∧
    (t.agent.apks slug = s.agent.apks slug ∨ t.agent.apks slug = s.agent.clients slug)

/-- A slug that is a name of its own: short, plain, with no hyphen at an end. -/
structure SlugOk (s : Text) : Prop where
  nonempty : s ≠ []
  length : s.length ≤ 39
  chars : ∀ c ∈ s, isPlain c = true ∨ c = '-'
  first : s.head? ≠ some '-'
  last : s.getLast? ≠ some '-'

/-- **Each installation its own app**, which no requests for the other's replace. -/
structure OwnApps (accepts : Client → Bool) (a b : Text) : Prop where
  apart : deriveAppSlug toLowerCase a ≠ deriveAppSlug toLowerCase b
  slugs : SlugOk (deriveAppSlug toLowerCase a) ∧ SlugOk (deriveAppSlug toLowerCase b)
  kept : ∀ s t,
    (Path (agentMachine toLowerCase accepts) (AllOf a) s t →
      Kept (deriveAppSlug toLowerCase b) s t) ∧
    (Path (agentMachine toLowerCase accepts) (AllOf b) s t →
      Kept (deriveAppSlug toLowerCase a) s t)

/-- A text too short to be a slug, and the one it is padded to. -/
def PadsTo (s t : Text) : Prop := s.length < 2 ∧ t = pad s

/-- What `slugify` would make of two ids stays apart when it is padded and cut, and is not cut
behind a hyphen. -/
structure StayApart (s t : Text) : Prop where
  beginnings : s.take 39 ≠ t.take 39
  unpadded : ¬ PadsTo s t ∧ ¬ PadsTo t s
  cuts : s[38]? ≠ some '-' ∧ t[38]? ≠ some '-'

/-! ## Single hyphens -/

/-- What `slugify` makes, whatever its length. -/
structure Slug (s : Text) : Prop where
  chars : ∀ c ∈ s, isPlain c = true ∨ c = '-'
  single : s.IsChain NotBoth
  first : s.head? ≠ some '-'
  last : s.getLast? ≠ some '-'

theorem hyphenate_single (p : Char → Bool) (s : Text) : (hyphenate p s).IsChain NotBoth :=
  List.isChain_destutter _ _

theorem mem_hyphenate {p : Char → Bool} {s : Text} {c : Char} (hc : c ∈ hyphenate p s) :
    p c = false ∨ c = '-' := by
  obtain ⟨d, -, rfl⟩ := List.mem_map.mp ((List.destutter_sublist _ _).subset hc)
  cases hd : p d with
  | true => exact .inr rfl
  | false => exact .inl (by simpa using hd)

/-- What is no letter and no digit is a hyphen first, and then one of a run. -/
theorem hyphenate_map (s : Text) :
    hyphenate (· = '-') (s.map (fun c => if isPlain c || c = '-' then c else '-')) =
      hyphenate (fun c => !isPlain c) s := by
  rw [hyphenate, hyphenate, List.map_map]
  congr 2
  funext c
  by_cases hc : c = '-'
  · simp [hc]
  · cases hplain : isPlain c <;> simp [hplain, hc]

/-! ## The ends -/

theorem dropHyphens_eq {s : Text} (h : s.IsChain NotBoth) : dropHyphens s = dropHyphen s := by
  unfold dropHyphens dropHyphen
  cases s with
  | nil => rfl
  | cons c cs =>
    by_cases hc : c = '-'
    · subst hc
      rw [List.dropWhile_cons_of_pos (by simp), List.head?_cons, if_pos rfl, List.tail_cons]
      cases cs with
      | nil => rfl
      | cons d ds =>
        have hd : d ≠ '-' := fun hd => (List.isChain_cons_cons.mp h).1 ⟨rfl, hd⟩
        exact List.dropWhile_cons_of_neg (by simpa using hd)
    · rw [List.dropWhile_cons_of_neg (by simpa using hc), List.head?_cons, if_neg (by simpa using hc)]

theorem bothEnds_dropHyphen {s : Text} (h : s.IsChain NotBoth) :
    bothEnds dropHyphen s = bothEnds dropHyphens s := by
  have hdrop : (dropHyphens s).IsChain NotBoth := h.suffix (List.dropWhile_suffix _)
  have hreverse : (dropHyphens s).reverse.IsChain NotBoth :=
    List.isChain_reverse.mpr (hdrop.imp (fun a b hab hba => hab hba.symm))
  rw [bothEnds, bothEnds, ← dropHyphens_eq h, dropHyphens_eq hreverse]

theorem head_dropHyphens (s : Text) : (dropHyphens s).head? ≠ some '-' := by
  intro h
  have hnot := List.head?_dropWhile_not (fun c => decide (c = '-')) s
  rw [dropHyphens] at h
  rw [h] at hnot
  simp at hnot

theorem bothEnds_prefix (s : Text) : bothEnds dropHyphens s <+: dropHyphens s := by
  have hback : dropHyphens (dropHyphens s).reverse <:+ (dropHyphens s).reverse :=
    List.dropWhile_suffix _
  rwa [← List.reverse_prefix, List.reverse_reverse] at hback

theorem slug_slugForm (s : Text) : Slug (slugForm s) := by
  have hprefix := bothEnds_prefix (hyphenate (fun c => !isPlain c) s)
  have hpart : slugForm s <:+: hyphenate (fun c => !isPlain c) s :=
    hprefix.isInfix.trans (List.dropWhile_suffix _).isInfix
  have hsingle := hyphenate_single (fun c => !isPlain c) s
  refine ⟨?_, ( hsingle.infix hpart), ?_, ?_⟩
  · intro c hc
    exact (mem_hyphenate (hpart.subset hc)).imp (fun h => by simpa using h) id
  · intro h
    obtain ⟨rest, hrest⟩ := hprefix
    have hfirst := head_dropHyphens (hyphenate (fun c => !isPlain c) s)
    rw [← hrest, List.head?_append, ← slugForm, h] at hfirst
    exact hfirst rfl
  · rw [slugForm, bothEnds, List.getLast?_reverse]
    exact head_dropHyphens _

theorem deriveAppSlug_eq (toLowerCase : Text → Text) (id : Text) :
    deriveAppSlug toLowerCase id = (pad (slugForm (toLowerCase id))).take 39 := by
  rw [deriveAppSlug, hyphenate_map, bothEnds_dropHyphen (hyphenate_single _ _), slugForm]

/-! ## Padding and cutting -/

theorem pad_long {s : Text} (h : ¬ s.length < 2) : pad s = s := if_neg h

theorem short_cases {s : Text} (h : s.length < 2) : s = [] ∨ ∃ c, s = [c] := by
  rcases s with _ | ⟨c, _ | ⟨d, rest⟩⟩
  · exact .inl rfl
  · exact .inr ⟨c, rfl⟩
  · simp only [List.length_cons] at h
    omega

theorem length_pad {s : Text} (h : s.length < 2) : 1 < (pad s).length ∧ (pad s).length < 39 := by
  rcases short_cases h with rfl | ⟨c, rfl⟩
  · decide
  · exact ⟨by simp [pad], by simp [pad]⟩

theorem take_pad_mixed {s t : Text} (hs : s.length < 2) (ht : ¬ t.length < 2) :
    (pad s).take 39 = (pad t).take 39 ↔ s.take 39 = t.take 39 ∨ PadsTo s t ∨ PadsTo t s := by
  have hlength := length_pad hs
  rw [pad_long ht, List.take_of_length_le (by omega)]
  constructor
  · intro h
    have hcut := congrArg List.length h
    rw [List.length_take] at hcut
    rw [List.take_of_length_le (by omega)] at h
    exact .inr (.inl ⟨hs, h.symm⟩)
  · rintro (h | ⟨-, rfl⟩ | ⟨h, -⟩)
    · have hcut := congrArg List.length h
      rw [List.length_take, List.length_take] at hcut
      omega
    · rw [List.take_of_length_le (by omega)]
    · exact absurd h ht

theorem take_pad_eq_iff (s t : Text) : (pad s).take 39 = (pad t).take 39 ↔
    s.take 39 = t.take 39 ∨ PadsTo s t ∨ PadsTo t s := by
  by_cases hs : s.length < 2
  · by_cases ht : t.length < 2
    · rcases short_cases hs with rfl | ⟨c, rfl⟩ <;> rcases short_cases ht with rfl | ⟨d, rfl⟩ <;>
        simp [pad, PadsTo]
    · exact take_pad_mixed hs ht
  · by_cases ht : t.length < 2
    · have hmixed := take_pad_mixed ht hs
      rwa [eq_comm, eq_comm (a := t.take 39), or_comm (a := PadsTo t s)] at hmixed
    · rw [pad_long hs, pad_long ht]
      exact ⟨.inl, fun h => h.resolve_right (fun h => h.elim (fun h => hs h.1) (fun h => ht h.1))⟩

theorem slugOk_iff {s : Text} (h : Slug s) : SlugOk ((pad s).take 39) ↔ s[38]? ≠ some '-' := by
  by_cases hs : s.length < 2
  · have hfirst := h.first
    have hchars := h.chars
    rw [List.take_of_length_le (by have := length_pad hs; omega), List.getElem?_eq_none (by omega)]
    refine iff_of_true ?_ (by simp)
    rcases short_cases hs with rfl | ⟨c, rfl⟩
    · have hpad : (pad []).all (fun c => isPlain c || c = '-') = true := by decide
      refine ⟨by decide, by decide, fun c hc => ?_, by decide, by decide⟩
      simpa using List.all_eq_true.mp hpad c hc
    · have hc := (hchars c List.mem_cons_self).resolve_right (fun h => hfirst (congrArg some h))
      refine ⟨by simp [pad], by simp [pad], ?_, by simp [pad], by simpa [pad] using hfirst⟩
      intro d hd
      have hd' : d = 'a' ∨ d = 'p' ∨ d = '-' ∨ d = c := by simpa [pad] using hd
      rcases hd' with rfl | rfl | rfl | rfl
      · exact .inl rfl
      · exact .inl rfl
      · exact .inr rfl
      · exact .inl hc
  · rw [pad_long hs]
    constructor
    · intro hok hcut
      have hlast := hok.last
      rw [List.getLast?_take, hcut] at hlast
      exact hlast rfl
    · intro hcut
      refine ⟨?_, List.length_take_le _ _, fun c hc => h.chars c (List.mem_of_mem_take hc), ?_, ?_⟩
      · rintro hnil
        rw [List.take_eq_nil_iff] at hnil
        rcases hnil with hnil | rfl
        · cases hnil
        · exact hs (by decide)
      · rw [List.head?_take]
        exact h.first
      · have hlast := h.last
        rw [List.getLast?_take, if_neg (by decide)]
        cases hat : s[38]? with
        | none => exact hlast
        | some c => simpa [hat] using hcut

/-! ## What the agent keeps -/

section Agents

variable {toLowerCase} {accepts : Client → Bool} {s t : System} {id slug : Text}

theorem enqueue_keeps (agent : Agent) (other : Text) :
    (enqueue agent other).clients = agent.clients ∧ (enqueue agent other).apks = agent.apks := by
  unfold enqueue
  split <;> exact ⟨rfl, rfl⟩

theorem push_keeps (hslug : deriveAppSlug toLowerCase id ≠ slug) (client : Option Client)
    (queued : Bool) :
    (pushAppToBuildAgent toLowerCase accepts s id client queued).agent.clients slug =
        s.agent.clients slug ∧
      (pushAppToBuildAgent toLowerCase accepts s id client queued).agent.apks slug =
        s.agent.apks slug := by
  unfold pushAppToBuildAgent
  dsimp only
  cases hwritten : client.bind (writeClient accepts s.agent (deriveAppSlug toLowerCase id)) with
  | none => exact ⟨rfl, rfl⟩
  | some agent =>
    obtain ⟨config, -, hconfig⟩ := Option.bind_eq_some_iff.mp hwritten
    obtain ⟨-, hagent⟩ := Option.ite_none_right_eq_some.mp hconfig
    obtain rfl := Option.some.inj hagent
    have hclients := Function.update_of_ne hslug.symm (some config) s.agent.clients
    cases queued with
    | false => exact ⟨hclients, rfl⟩
    | true =>
      obtain ⟨hsame, happs⟩ := enqueue_keeps
        { s.agent with clients := Function.update s.agent.clients _ (some config) }
        (deriveAppSlug toLowerCase id)
      exact ⟨(congrFun hsame slug).trans hclients, congrFun happs slug⟩

theorem step_keeps {a : Label} (hslug : deriveAppSlug toLowerCase id ≠ slug)
    (hguard : AllOf id s a) (hstep : step toLowerCase accepts s a = some t) : Kept slug s t := by
  have hpush (client : Option Client) (queued : Bool) :
      Kept slug s (pushAppToBuildAgent toLowerCase accepts s id client queued) :=
    (push_keeps hslug client queued).imp_right .inl
  cases a with
  | generate other client queued =>
    obtain rfl : other = id := hguard
    cases hstep
    exact hpush client queued
  | edit other client queued =>
    obtain rfl : other = id := hguard
    cases hstep
    split
    · exact hpush client queued
    · exact ⟨rfl, .inl rfl⟩
  | built ok =>
    obtain ⟨agent, hagent, rfl⟩ := Option.map_eq_some_iff.mp hstep
    unfold processQueue at hagent
    split at hagent
    · cases hagent
    next head queue hqueue =>
      cases hagent
      refine ⟨rfl, ?_⟩
      cases ok with
      | false => exact .inl rfl
      | true =>
        by_cases hhead : slug = head
        · subst hhead
          exact .inr (Function.update_self _ _ _)
        · exact .inl (Function.update_of_ne hhead _ _)

theorem path_keeps (hslug : deriveAppSlug toLowerCase id ≠ slug)
    (hpath : Path (agentMachine toLowerCase accepts) (AllOf id) s t) : Kept slug s t := by
  refine hpath.invariant (I := Kept slug s) ?_ ⟨rfl, .inl rfl⟩
  rintro u a v ⟨hclients, hbuilt⟩ hguard hstep
  obtain ⟨hsame, hnext⟩ := step_keeps hslug hguard hstep
  refine ⟨hsame.trans hclients, ?_⟩
  rcases hnext with hnext | hnext
  · exact hbuilt.imp hnext.trans hnext.trans
  · exact .inr (hnext.trans hclients)

end Agents

theorem ownApps_iff (accepts : Client → Bool) (a b : Text) : OwnApps toLowerCase accepts a b ↔
    StayApart (slugForm (toLowerCase a)) (slugForm (toLowerCase b)) := by
  have ha := slugOk_iff (slug_slugForm (toLowerCase a))
  have hb := slugOk_iff (slug_slugForm (toLowerCase b))
  constructor
  · rintro ⟨hapart, hslugs, -⟩
    rw [deriveAppSlug_eq, deriveAppSlug_eq] at hapart hslugs
    rw [Ne, take_pad_eq_iff, not_or, not_or] at hapart
    exact ⟨hapart.1, hapart.2, ha.mp hslugs.1, hb.mp hslugs.2⟩
  · rintro ⟨hbeginnings, hunpadded, hcuts⟩
    have hapart : deriveAppSlug toLowerCase a ≠ deriveAppSlug toLowerCase b := by
      rw [deriveAppSlug_eq, deriveAppSlug_eq, Ne, take_pad_eq_iff, not_or, not_or]
      exact ⟨hbeginnings, hunpadded⟩
    refine ⟨hapart, ?_, fun s t => ⟨path_keeps hapart, path_keeps hapart.symm⟩⟩
    rw [deriveAppSlug_eq, deriveAppSlug_eq]
    exact ⟨ha.mpr hcuts.1, hb.mpr hcuts.2⟩

end Language

def block (letter : String) : Text :=
  slugify id (List.map Char.toLower) [] ("Condominio Residencial Jardim das Flores " ++ letter).toList

/-- The app of a block, at its own address. -/
def blockApp (letter : String) : Client :=
  ⟨("Bloco " ++ letter).toList, ("http://10.0.0." ++ letter ++ "/api").toList, "com.x.y".toList⟩

/-- The app of block B is generated over that of block A. -/
theorem blocks_share_app : block "A" ≠ block "B" ∧
    let lower := List.map Char.toLower
    let generated := pushAppToBuildAgent lower (fun _ => true) {} (block "A") (some (blockApp "A"))
      true
    generated.agent.clients (deriveAppSlug lower (block "A")) = some (blockApp "A") ∧
      (pushAppToBuildAgent lower (fun _ => true) generated (block "B") (some (blockApp "B"))
        true).agent.clients (deriveAppSlug lower (block "A")) = some (blockApp "B") := by
  decide +kernel

end Drac.Central.AppSlugs
