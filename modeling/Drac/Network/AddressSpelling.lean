import Drac.Network.SafeUrl

/-
  The private and reserved addresses, and the texts that are misread.

  `isPrivateIpv4` works on octets, `isPrivateIpv6` on the first letters of the text. So what the
  answer should be depends on the address alone (`Reserved`), and the answer differs from it on
  the texts of `isMisread` (`private_eq`): an address of one group `1` not written `::1`, a first
  group such as `fc` or `fe8` that is not filled up to four digits, and a mapped address that is
  not written `::ffff:` and four octets, where the IPv4 address is reserved.
-/

namespace Drac.Network.SafeUrl

open IpText CommaList

/-! ## What is reserved -/

def reservedV4 (n : Nat) : Bool :=
  let a := n / 2 ^ 24
  let b := n / 2 ^ 16 % 256
  a = 10 || a = 127 || (a = 169 && b = 254) || (a = 192 && b = 168) ||
    (a = 172 && 16 ≤ b && b ≤ 31) || a = 0 || 224 ≤ a

/-- `fc00::/7` and `fe80::/10`, by the first group. -/
def reservedGroup (g : Nat) : Bool :=
  (0xfc00 ≤ g && g ≤ 0xfdff) || (0xfe80 ≤ g && g ≤ 0xfebf)

def Reserved (a : Address) : Bool :=
  match a.family with
  | .v4 => reservedV4 a.value
  | .v6 => a.value = 1 || reservedGroup (a.value / 2 ^ 112)

/-! ## What is misread -/

def loopback : Text := [':', ':', '1']

def reservedStarts : List Text :=
  [['f', 'c'], ['f', 'd'], ['f', 'e', '8'], ['f', 'e', '9'], ['f', 'e', 'a'], ['f', 'e', 'b']]

def startsReserved (text : Text) : Bool := reservedStarts.any (fun start => start <+: text)

/-- The first group is written in less than four digits, and starts like a reserved one. -/
def isShort (text : Text) : Bool :=
  let lower := text.map Char.toLower
  startsReserved lower && (firstSegment lower).length < 4

/-- After `::ffff:`, in lower case, comes something else than an IPv4 address. -/
def isCut (text : Text) : Bool := mappedStart <+: text && (parseV4 (text.drop 7)).isNone

/-- `::ffff:` in lower case and an IPv4 address. -/
def isUnmapped (text : Text) : Bool := mappedStart <+: text && (parseV4 (text.drop 7)).isSome

def isMisreadAs (text : Text) (a : Address) : Bool :=
  if a.isMapped then Reserved a.unmap && !isUnmapped text
  else a.family = .v6 && ((a.value = 1 && text ≠ loopback) || isShort text)

/-- The answer for the text is not that for its address. -/
def isMisread (text : Text) : Bool := (read text).any (isMisreadAs text)

/-! ## IPv4 -/

variable {n : Nat}

theorem intWithin_octet {s : Text} (h : octet s = some n) :
    JsNumber.intWithin 255 (JsNumber.number s) = some n := by
  obtain ⟨⟨hne, hdigits, -, hle⟩, rfl⟩ := octet_eq_some.mp h
  rw [JsNumber.intWithin_digits (by decide) hne (List.all_eq_true.mp hdigits), if_pos hle]

variable {t : Text}

theorem parseIpv4Octets_eq {a b c d : Nat}
    (h : (t.splitOn '.').mapM octet = some [a, b, c, d]) :
    parseIpv4Octets t = some [a, b, c, d] := by
  have hlen : (t.splitOn '.').length = 4 := (mapM_length h).symm
  rw [parseIpv4Octets]
  simp only [hlen, ne_eq, not_true_eq_false, if_false]
  have hmap : ∀ {l : List Text} {ys : List Nat}, l.mapM octet = some ys →
      l.mapM (fun part => JsNumber.intWithin 255 (JsNumber.number part)) = some ys := by
    intro l
    induction l with
    | nil => exact fun hl => hl
    | cons s rest ih =>
      intro ys hl
      obtain ⟨y, ys', hy, hys, rfl⟩ := mapM_cons_eq_some.mp hl
      exact mapM_cons_eq_some.mpr ⟨y, ys', intWithin_octet hy, ih hys, rfl⟩
  exact hmap h

theorem isPrivateIpv4_eq (h : parseV4 t = some n) :
    isPrivateIpv4 t = reservedV4 n := by
  obtain ⟨a, b, c, d, hoctets, rfl⟩ := parseV4_eq_some h
  have hle : ∀ x ∈ [a, b, c, d], x ≤ 255 := fun x hx => by
    obtain ⟨s, hs⟩ := mapM_mem_right hoctets hx
    exact (octet_digits hs).1
  have hb := hle b (by simp)
  have hc := hle c (by simp)
  have hd := hle d (by simp)
  have hhigh : (((a * 256 + b) * 256 + c) * 256 + d) / 2 ^ 24 = a := by omega
  have hlow : (((a * 256 + b) * 256 + c) * 256 + d) / 2 ^ 16 % 256 = b := by omega
  rw [isPrivateIpv4, parseIpv4Octets_eq hoctets]
  simp only [reservedV4, hhigh, hlow]

/-! ## The start of an IPv6 text -/

theorem prefix_takeWhile {p : Char → Bool} : ∀ {s l : Text}, (∀ c ∈ s, p c = true) →
    (s <+: l.takeWhile p ↔ s <+: l)
  | [], l, _ => ⟨fun _ => List.nil_prefix, fun _ => List.nil_prefix⟩
  | c :: s, [], _ => Iff.rfl
  | c :: s, d :: l, h => by
    have hc : p c = true := h c List.mem_cons_self
    have ih := prefix_takeWhile (l := l) (fun x hx => h x (List.mem_cons_of_mem c hx))
    cases hd : p d with
    | true => rw [List.takeWhile_cons_of_pos hd, List.cons_prefix_cons, List.cons_prefix_cons, ih]
    | false =>
      have hne : c ≠ d := fun heq => by
        rw [heq, hd] at hc
        cases hc
      rw [List.takeWhile_cons_of_neg (by rw [hd]; exact Bool.false_ne_true), List.cons_prefix_cons]
      exact ⟨nofun, fun hcons => absurd hcons.1 hne⟩

theorem startsReserved_firstSegment (l : Text) :
    startsReserved (firstSegment l) = startsReserved l := by
  have hall : reservedStarts.all (fun start => start.all (fun c => c ≠ ':')) = true := by decide
  have hcolon : ∀ start ∈ reservedStarts, ∀ c ∈ start, decide (c ≠ ':') = true :=
    fun start hstart => List.all_eq_true.mp (List.all_eq_true.mp hall start hstart)
  rw [Bool.eq_iff_iff, startsReserved, startsReserved, List.any_eq_true, List.any_eq_true]
  refine exists_congr (fun start => and_congr_right (fun hstart => ?_))
  rw [decide_eq_true_eq, decide_eq_true_eq, firstSegment, prefix_takeWhile (hcolon start hstart)]

theorem isPrivateIpv6_eq (ip : Text) : isPrivateIpv6 ip =
    (ip.map Char.toLower = loopback || startsReserved (ip.map Char.toLower)) := by
  simp only [isPrivateIpv6, startsReserved, reservedStarts, List.any_cons, List.any_nil,
    Bool.or_false, Bool.or_assoc, loopback]
  rfl

/-- A digit in lower case, and what it is. -/
structure IsDigit (c : Char) (v : Nat) : Prop where
  value : hexValue c = some v
  lower : c.toLower = c

theorem IsDigit.eq_iff {c d : Char} {v w : Nat} (hc : IsDigit c v) (hd : IsDigit d w) :
    d = c ↔ w = v :=
  hexValue_eq_iff hd.value hc.value hd.lower hc.lower

theorem startsReserved_one (a : Char) : startsReserved [a] = false := by
  simp [startsReserved, reservedStarts, List.cons_prefix_cons]

theorem startsReserved_two {a b : Char} {av bv : Nat} (ha : IsDigit a av) (hb : IsDigit b bv) :
    startsReserved [a, b] = true ↔ av = 15 ∧ (bv = 12 ∨ bv = 13) := by
  have hf := ha.eq_iff (⟨rfl, rfl⟩ : IsDigit 'f' 15)
  have hc := hb.eq_iff (⟨rfl, rfl⟩ : IsDigit 'c' 12)
  have hd := hb.eq_iff (⟨rfl, rfl⟩ : IsDigit 'd' 13)
  simp only [startsReserved, reservedStarts, List.any_cons, List.any_nil, List.cons_prefix_cons,
    hf, hc, hd, Bool.or_eq_true, decide_eq_true_eq, List.prefix_nil, reduceCtorEq,
    and_true, and_false, or_false]
  omega

theorem startsReserved_three {a b c : Char} {av bv cv : Nat} (ha : IsDigit a av)
    (hb : IsDigit b bv) (hc : IsDigit c cv) (rest : Text) :
    startsReserved (a :: b :: c :: rest) = true ↔
      av = 15 ∧ (bv = 12 ∨ bv = 13 ∨ bv = 14 ∧ 8 ≤ cv ∧ cv ≤ 11) := by
  have hf := ha.eq_iff (⟨rfl, rfl⟩ : IsDigit 'f' 15)
  have hc' := hb.eq_iff (⟨rfl, rfl⟩ : IsDigit 'c' 12)
  have hd := hb.eq_iff (⟨rfl, rfl⟩ : IsDigit 'd' 13)
  have he := hb.eq_iff (⟨rfl, rfl⟩ : IsDigit 'e' 14)
  have h8 := hc.eq_iff (⟨rfl, rfl⟩ : IsDigit '8' 8)
  have h9 := hc.eq_iff (⟨rfl, rfl⟩ : IsDigit '9' 9)
  have h10 := hc.eq_iff (⟨rfl, rfl⟩ : IsDigit 'a' 10)
  have h11 := hc.eq_iff (⟨rfl, rfl⟩ : IsDigit 'b' 11)
  simp only [startsReserved, reservedStarts, List.any_cons, List.any_nil, List.cons_prefix_cons,
    hf, hc', hd, he, h8, h9, h10, h11, Bool.or_eq_true, decide_eq_true_eq, List.nil_prefix,
    and_true, Bool.false_eq_true, or_false]
  omega

theorem reservedGroup_iff (g : Nat) : reservedGroup g = true ↔
    0xfc00 ≤ g ∧ g ≤ 0xfdff ∨ 0xfe80 ≤ g ∧ g ≤ 0xfebf := by
  simp only [reservedGroup, Bool.or_eq_true, Bool.and_eq_true, decide_eq_true_eq]

/-- A segment in lower case starts so, in four digits, exactly if its group is reserved. -/
theorem startsReserved_segment {s : Text} {g : Nat} (h : hexSeg s = some g)
    (hlow : ∀ c ∈ s, c.toLower = c) :
    (startsReserved s = true → 15 ≤ g) ∧
      (reservedGroup g = true ↔ startsReserved s = true ∧ s.length = 4) := by
  obtain ⟨⟨hne, hlen, hhex⟩, rfl⟩ := hexSeg_eq_some.mp h
  have hdigit : ∀ c ∈ s, ∃ v, IsDigit c v := fun c hc => by
    obtain ⟨v, hv⟩ := Option.isSome_iff_exists.mp (List.all_eq_true.mp hhex c hc)
    exact ⟨v, hv, hlow c hc⟩
  rw [reservedGroup_iff]
  match s, hne, hlen with
  | [a], _, _ =>
    obtain ⟨av, ha⟩ := hdigit a (by simp)
    have hav := hexValue_lt ha.value
    have hnumber : hexNumber [a] = av := by
      simp [hexNumber, ha.value]
    have hno : startsReserved [a] ≠ true := by
      rw [startsReserved_one]
      exact Bool.false_ne_true
    rw [hnumber]
    exact ⟨fun hstart => absurd hstart hno, fun hgroup => by omega, fun hstart => absurd hstart.1 hno⟩
  | [a, b], _, _ =>
    obtain ⟨av, ha⟩ := hdigit a (by simp)
    obtain ⟨bv, hb⟩ := hdigit b (by simp)
    have hav := hexValue_lt ha.value
    have hbv := hexValue_lt hb.value
    have hnumber : hexNumber [a, b] = 16 * av + bv := by
      simp [hexNumber, ha.value, hb.value]
    rw [startsReserved_two ha hb, hnumber]
    show _ ∧ (_ ↔ _ ∧ 2 = 4)
    omega
  | [a, b, c], _, _ =>
    obtain ⟨av, ha⟩ := hdigit a (by simp)
    obtain ⟨bv, hb⟩ := hdigit b (by simp)
    obtain ⟨cv, hc⟩ := hdigit c (by simp)
    have hav := hexValue_lt ha.value
    have hbv := hexValue_lt hb.value
    have hcv := hexValue_lt hc.value
    have hnumber : hexNumber [a, b, c] = 16 * (16 * av + bv) + cv := by
      simp [hexNumber, ha.value, hb.value, hc.value]
    rw [startsReserved_three ha hb hc, hnumber]
    show _ ∧ (_ ↔ _ ∧ 3 = 4)
    omega
  | [a, b, c, d], _, _ =>
    obtain ⟨av, ha⟩ := hdigit a (by simp)
    obtain ⟨bv, hb⟩ := hdigit b (by simp)
    obtain ⟨cv, hc⟩ := hdigit c (by simp)
    obtain ⟨dv, hd⟩ := hdigit d (by simp)
    have hav := hexValue_lt ha.value
    have hbv := hexValue_lt hb.value
    have hcv := hexValue_lt hc.value
    have hdv := hexValue_lt hd.value
    have hnumber : hexNumber [a, b, c, d] = 16 * (16 * (16 * av + bv) + cv) + dv := by
      simp [hexNumber, ha.value, hb.value, hc.value, hd.value]
    rw [startsReserved_three ha hb hc, hnumber]
    show _ ∧ (_ ↔ _ ∧ 4 = 4)
    omega

theorem startsReserved_colon (rest : Text) : startsReserved (':' :: rest) = false := by
  simp [startsReserved, reservedStarts, List.cons_prefix_cons]

variable {gs : List Nat}

/-- How an IPv6 text starts, against its first group. -/
theorem starts_of_parseV6 (h : parseV6 t = some gs) :
    ∃ g rest, gs = g :: rest ∧
      (startsReserved (t.map Char.toLower) = (reservedGroup g || isShort t)) ∧
      (isShort t = true → reservedGroup g = false) ∧
      (startsReserved (t.map Char.toLower) = true → g ≠ 0) := by
  rw [← parseV6_map] at h
  obtain ⟨g, rest, rfl, hfirst⟩ := first_group h
  refine ⟨g, rest, rfl, ?_⟩
  rcases hfirst with ⟨hcolon, rfl⟩ | hseg
  · obtain ⟨l, hl⟩ : ∃ l, t.map Char.toLower = ':' :: l := by
      cases hlower : t.map Char.toLower with
      | nil =>
        rw [hlower] at hcolon
        cases hcolon
      | cons c l =>
        rw [hlower] at hcolon
        cases hcolon
        exact ⟨l, rfl⟩
    have hno := startsReserved_colon l
    simp only [isShort, hl, hno]
    exact ⟨rfl, nofun, nofun⟩
  · have hlow : ∀ c ∈ firstSegment (t.map Char.toLower), c.toLower = c := by
      intro c hc
      obtain ⟨d, -, rfl⟩ := List.mem_map.mp ((List.takeWhile_prefix _).subset hc)
      exact AsciiCase.toLower_toLower d
    obtain ⟨hpos, hgroup⟩ := startsReserved_segment hseg hlow
    have hlen : (firstSegment (t.map Char.toLower)).length ≤ 4 := (hexSeg_eq_some.mp hseg).1.2.1
    rw [startsReserved_firstSegment] at hpos hgroup
    have hshort : isShort t = true ↔ startsReserved (t.map Char.toLower) = true ∧
        (firstSegment (t.map Char.toLower)).length < 4 := by
      rw [isShort, Bool.and_eq_true, decide_eq_true_eq]
    refine ⟨?_, ?_, ?_⟩
    · rw [Bool.eq_iff_iff, Bool.or_eq_true, hgroup, hshort]
      constructor
      · intro hstart
        by_cases hfour : (firstSegment (t.map Char.toLower)).length = 4
        · exact .inl ⟨hstart, hfour⟩
        · exact .inr ⟨hstart, by omega⟩
      · rintro (⟨hstart, -⟩ | ⟨hstart, -⟩) <;> exact hstart
    · rw [hshort, Bool.eq_false_iff, Ne, hgroup]
      rintro ⟨-, hlt⟩ ⟨-, hfour⟩
      omega
    · intro hstart hzero
      have hlarge := hpos hstart
      omega

/-! ## The answer for a text -/

theorem loopback_map : t.map Char.toLower = loopback ↔ t = loopback := by
  constructor
  · intro h
    obtain ⟨a, t, rfl, ha, h⟩ := List.map_eq_cons_iff.mp h
    obtain ⟨b, t, rfl, hb, h⟩ := List.map_eq_cons_iff.mp h
    obtain ⟨c, t, rfl, hc, h⟩ := List.map_eq_cons_iff.mp h
    rw [toLower_eq_iff (by decide) (by decide)] at ha hb hc
    rw [List.map_eq_nil_iff.mp h, ha, hb, hc]
    rfl
  · rintro rfl
    decide

theorem private_of_v4 (h : parseV4 t = some n) :
    isPrivateOrReservedIp t = reservedV4 n := by
  have hcolon := (parseV4_no_colon h).2
  have hno : ¬ mappedStart <+: t := by
    rintro ⟨r, rfl⟩
    exact hcolon (List.mem_append_left r (by decide))
  have hzone : '%' ∉ t := fun hc => absurd (isAddressChar_of_v4 h hc) (by decide)
  have hnormal : normalizeIp t = t := by
    rw [normalizeIp, if_neg hno]
  simp only [isPrivateOrReservedIp, hnormal, isIP_of_no_zone hzone, h, Option.isSome_some, if_true]
  exact isPrivateIpv4_eq h

theorem private_of_v6 (h4 : parseV4 t = none)
    (h6 : parseV6 t = some gs) (hno : ¬ mappedStart <+: t) :
    isPrivateOrReservedIp t = isPrivateIpv6 t := by
  have hread : read t = some ⟨.v6, groupsValue gs⟩ := by
    rw [IpText.read, h4, h6]
    rfl
  have hnormal : normalizeIp t = t := by
    rw [normalizeIp, if_neg hno]
  simp only [isPrivateOrReservedIp, hnormal, isIP_of_no_zone (no_zone_of_read hread), h4, h6]
  rfl

theorem isUnmapped_of_no_start (h : ¬ mappedStart <+: t) : isUnmapped t = false := by
  rw [isUnmapped, decide_eq_false h, Bool.false_and]

/-- Without `::ffff:` before it a text is classified by how it starts. -/
theorem private_of_no_start (h4 : parseV4 t = none)
    (h6 : parseV6 t = some gs) (hno : ¬ mappedStart <+: t) :
    isPrivateOrReservedIp t =
      xor (Reserved (Address.mk .v6 (groupsValue gs)).unmap)
        (isMisreadAs t ⟨.v6, groupsValue gs⟩) := by
  obtain ⟨hlen, hlt⟩ := (parseV6_shape h6).groups
  obtain ⟨g, rest, rfl, hstart, hshort, hpos⟩ := starts_of_parseV6 h6
  have hfirst := groupsValue_first hlen hlt
  have hone : t = loopback → groupsValue (g :: rest) = 1 := by
    rintro rfl
    have hparse : parseV6 loopback = some [0, 0, 0, 0, 0, 0, 0, 1] := by decide
    cases hparse.symm.trans h6
    rfl
  have hloop : decide (t.map Char.toLower = loopback) = decide (t = loopback) :=
    decide_eq_decide.mpr loopback_map
  rw [private_of_v6 h4 h6 hno, isPrivateIpv6_eq, hloop, isMisreadAs]
  cases hmapped : (Address.mk .v6 (groupsValue (g :: rest))).isMapped with
  | true =>
    have hvalue := (isMapped_iff.mp hmapped).2
    have hzero : g = 0 := by
      have hdiv : groupsValue (g :: rest) / 2 ^ 112 = 0 := by
        change groupsValue (g :: rest) / 2 ^ 32 = 0xffff at hvalue
        omega
      exact hfirst.symm.trans hdiv
    have hnostart : startsReserved (t.map Char.toLower) = false := by
      rw [Bool.eq_false_iff]
      exact fun hs => hpos hs hzero
    have hnoloop : t ≠ loopback := fun heq => by
      change groupsValue (g :: rest) / 2 ^ 32 = 0xffff at hvalue
      rw [hone heq] at hvalue
      omega
    rw [hnostart, decide_eq_false hnoloop, if_pos rfl, isUnmapped_of_no_start hno, Bool.not_false,
      Bool.and_true, Bool.xor_self, Bool.or_false]
  | false =>
    rw [unmap_of_not_mapped hmapped, if_neg Bool.false_ne_true]
    have hreserved : Reserved (Address.mk .v6 (groupsValue (g :: rest))) =
        (decide (groupsValue (g :: rest) = 1) || reservedGroup g) := by
      rw [Reserved, hfirst]
    rw [hreserved, hstart]
    by_cases hv : groupsValue (g :: rest) = 1
    · have hzero : g = 0 := (List.cons.inj (groupsValue_one hlen hv)).1
      have hneither : (reservedGroup g || isShort t) = false := by
        rw [← hstart, Bool.eq_false_iff]
        exact fun hs => hpos hs hzero
      obtain ⟨hgroup, hno⟩ := Bool.or_eq_false_iff.mp hneither
      rw [hgroup, hno, decide_eq_true hv]
      by_cases hloop : t = loopback
      · simp [hloop]
      · simp [hloop]
    · have hloop : t ≠ loopback := fun heq => hv (hone heq)
      rw [decide_eq_false hv, decide_eq_false hloop]
      cases hs : isShort t with
      | false => cases reservedGroup g <;> rfl
      | true =>
        rw [hshort hs]
        rfl

/-- With `::ffff:` before it only an IPv4 address is classified. -/
theorem private_of_start {r : Text} (h6 : parseV6 (mappedStart ++ r) = some gs) :
    isPrivateOrReservedIp (mappedStart ++ r) =
      xor (Reserved (Address.mk .v6 (groupsValue gs)).unmap)
        (isMisreadAs (mappedStart ++ r) ⟨.v6, groupsValue gs⟩) := by
  have hdrop : (mappedStart ++ r).drop 7 = r := rfl
  have hstart : mappedStart <+: mappedStart ++ r := List.prefix_append _ _
  have hnormal : normalizeIp (mappedStart ++ r) = r := by
    rw [normalizeIp, if_pos hstart, hdrop]
  have hunmapped : isUnmapped (mappedStart ++ r) = (parseV4 r).isSome := by
    rw [isUnmapped, decide_eq_true hstart, Bool.true_and, hdrop]
  cases h4 : parseV4 r with
  | some n =>
    have hlt := parseV4_lt h4
    have hzone : '%' ∉ r := fun hc => absurd (isAddressChar_of_v4 h4 hc) (by decide)
    rw [parseV6_mapped (parseV4_no_colon h4).2 (parseV4_dot h4), h4, Option.map_some] at h6
    cases h6
    have hvalue : groupsValue [0, 0, 0, 0, 0, 0xffff, n / 65536, n % 65536] =
        0xffff * 2 ^ 32 + n := groupsValue_mapped n
    have hmapped : (Address.mk .v6 (0xffff * 2 ^ 32 + n)).isMapped = true :=
      isMapped_iff.mpr ⟨rfl, by
        show (0xffff * 2 ^ 32 + n) / 2 ^ 32 = 0xffff
        omega⟩
    rw [hvalue, isMisreadAs, if_pos hmapped, unmap_mapped hlt, hunmapped, h4, Option.isSome_some,
      Bool.not_true, Bool.and_false, Bool.xor_false]
    simp only [isPrivateOrReservedIp, hnormal, isIP_of_no_zone hzone, h4, Option.isSome_some, if_true]
    exact isPrivateIpv4_eq h4
  | none =>
    obtain ⟨hr6, hmem⟩ := parseV6_after_mapped h6
    have hcolon : parseV4 (mappedStart ++ r) = none := by
      cases h : parseV4 (mappedStart ++ r) with
      | none => rfl
      | some n => exact absurd (List.mem_append_left r (by decide)) (parseV4_no_colon h).2
    have hread : read (mappedStart ++ r) = some ⟨.v6, groupsValue gs⟩ := by
      rw [IpText.read, hcolon, h6]
      rfl
    have hzone : '%' ∉ r := fun hc =>
      no_zone_of_read hread (List.mem_append_right mappedStart hc)
    have hprivate : isPrivateOrReservedIp (mappedStart ++ r) = false := by
      simp only [isPrivateOrReservedIp, hnormal, isIP_of_no_zone hzone, h4, hr6]
      rfl
    rw [hprivate, isMisreadAs]
    cases hmapped : (Address.mk .v6 (groupsValue gs)).isMapped with
    | true =>
      rw [if_pos rfl, hunmapped, h4, Option.isSome_none, Bool.not_false, Bool.and_true, Bool.xor_self]
    | false =>
      obtain ⟨hlen, hlt⟩ := (parseV6_shape h6).groups
      have hone : groupsValue gs ≠ 1 := by
        intro h
        rw [groupsValue_one hlen h] at hmem
        exact absurd hmem (by decide)
      obtain ⟨g, rest, rfl, hstarts, -, -⟩ := starts_of_parseV6 h6
      have hneither : (reservedGroup g || isShort (mappedStart ++ r)) = false :=
        hstarts.symm.trans (startsReserved_colon _)
      obtain ⟨hgroup, hshort⟩ := Bool.or_eq_false_iff.mp hneither
      rw [unmap_of_not_mapped hmapped, if_neg Bool.false_ne_true, Reserved]
      simp only [groupsValue_first hlen hlt, hgroup, hshort, decide_eq_false hone, Bool.false_and,
        Bool.or_false, Bool.and_false, Bool.xor_false]

/-- The answer for a text is that for its address, except where the text is misread. -/
theorem private_eq {a : Address} (h : denotes t = some a) :
    isPrivateOrReservedIp t = xor (Reserved a) (isMisread t) := by
  obtain ⟨b, hb, rfl⟩ := Option.map_eq_some_iff.mp h
  have hmisread : isMisread t = isMisreadAs t b := by
    rw [isMisread, hb]
    rfl
  rw [hmisread]
  cases h4 : parseV4 t with
  | some n =>
    rw [IpText.read, h4] at hb
    cases hb
    rw [private_of_v4 h4, unmap_v4, isMisreadAs, isMapped_v4]
    exact (Bool.xor_false _).symm
  | none =>
    rw [IpText.read, h4] at hb
    obtain ⟨gs, h6, rfl⟩ := Option.map_eq_some_iff.mp hb
    by_cases hstart : mappedStart <+: t
    · obtain ⟨r, rfl⟩ := hstart
      exact private_of_start h6
    · exact private_of_no_start h4 h6 hstart

end Drac.Network.SafeUrl
