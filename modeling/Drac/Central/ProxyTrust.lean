import Drac.Lib.CommaList
import Drac.Lib.JsNumber

/-
  The reverse proxies the central trusts.

  Under the source's names: normalizeIp, ipv4ToBigInt, ipv6ToBigInt, ipValue,
  parseTrustedProxyEntry, compileTrustedProxies, isTrustedProxy, clientIpFromRequest.

  A list of addresses and CIDRs is compiled once; a request whose socket peer is in one of them
  may name the client in `x-real-ip`. Every address is read by `ipValue`, from text to a number,
  and `ipValue_eq` says which: the address the text is written as (`addressOf`), in whatever
  spelling, the dotted form of a mapped address being IPv4.
-/

namespace Drac.Central.ProxyTrust

open IpText CommaList

/-! ## The source -/

/-- `.replace(/^\[|\]$/g, '')`. -/
def stripBrackets (text : Text) : Text :=
  let text := if text.head? = some '[' then text.tail else text
  if text.getLast? = some ']' then text.dropLast else text

/-- What is left of a text without blanks, brackets and the zone. -/
def bare (value : Text) : Text := (stripBrackets (trim value)).takeWhile (· ≠ '%')

/-- `/^\d+\.\d+\.\d+\.\d+$/`. -/
def isDotted (text : Text) : Bool :=
  let parts := text.splitOn '.'
  parts.length = 4 && parts.all (fun part => part ≠ [] && part.all isDigit)

/-- `/^::ffff:\d+\.\d+\.\d+\.\d+$/i`. -/
def isMappedDotted (ip : Text) : Bool :=
  (ip.take 7).map Char.toLower = mappedStart && isDotted (ip.drop 7)

/-- The text `normalizeIp` hands to `net.isIP`. -/
def unmapDotted (ip : Text) : Text := if isMappedDotted ip then ip.drop 7 else ip

def normalizeIp (value : Text) : Text :=
  let ip := unmapDotted (bare value)
  if isIP ip ≠ 0 then ip.map Char.toLower else []

/-- `BigInt(Number(octet))`, of digits. -/
def octetValue (octet : Text) : Nat := ((JsNumber.number octet).getD 0).num.toNat

def ipv4ToBigInt (ip : Text) : Nat :=
  (ip.splitOn '.').foldl (fun value octet => value <<< 8 ||| octetValue octet) 0

/-- `ip.match(/(\d+\.\d+\.\d+\.\d+)$/)?.[1]`: the match that starts first. -/
def ipv4Tail : Text → Option Text
  | [] => none
  | c :: rest => if isDotted (c :: rest) then some (c :: rest) else ipv4Tail rest

/-- `value.toString(16)`. -/
def hex (value : Nat) : Text := Nat.toDigits 16 value

def replaceTail (ip : Text) : Text :=
  match ipv4Tail ip with
  | none => ip
  | some tail =>
    let value := ipv4ToBigInt tail
    let replacement := hex ((value >>> 16) &&& 0xffff) ++ ':' :: hex (value &&& 0xffff)
    ip.take (ip.length - tail.length) ++ replacement

def invalidV6 : String := "IPv6 inválido"

/-- The eight parts on either side of `::`, as one number. -/
def partsToBigInt (parts : List Text) : Except String Nat :=
  if parts.length ≠ 8 ∨ parts.any (fun part => (hexSeg part).isNone) then .error invalidV6
  else .ok (parts.foldl (fun value part => value <<< 16 ||| hexNumber part) 0)

def ipv6ToBigInt (input : Text) : Except String Nat :=
  let halves := splitDouble (replaceTail (input.map Char.toLower))
  if halves.length > 2 then .error invalidV6
  else
    let left := segments (halves.headD [])
    let right := segments (halves.tail.headD [])
    if left.length + right.length > 8 ∨
        halves.length = 1 ∧ left.length + right.length ≠ 8 then .error invalidV6
    else
      partsToBigInt (left ++ List.replicate (8 - left.length - right.length) ['0'] ++ right)

structure Parsed where
  family : Family
  bits : Nat
  value : Nat
  deriving DecidableEq, Repr

def ipValue (ip : Text) : Except String Parsed :=
  let normalized := normalizeIp ip
  let family := isIP normalized
  if family = 4 then .ok ⟨.v4, 32, ipv4ToBigInt normalized⟩
  else if family = 6 then (ipv6ToBigInt normalized).map (fun value => ⟨.v6, 128, value⟩)
  else .error ("Endereço IP inválido: " ++ String.ofList ip)

/-- `shift === 0n ? value : (value >> shift) << shift`. -/
def maskValue (value shift : Nat) : Nat := if shift = 0 then value else (value >>> shift) <<< shift

structure Range where
  family : Family
  bits : Nat
  prefixLength : Nat
  network : Nat
  deriving DecidableEq, Repr

/-- `prefixRaw === undefined ? bits : Number(prefixRaw)`, an integer from 0 to `bits`. -/
def prefixOf (bits : Nat) : Option Text → Option Nat
  | none => some bits
  | some prefixRaw => JsNumber.intWithin bits (JsNumber.number prefixRaw)

def rangeWith (raw : Text) (parsed : Parsed) : Option Nat → Except String (Option Range)
  | none => .error ("CIDR de proxy inválido: " ++ String.ofList raw)
  | some prefixLength =>
    .ok (some ⟨parsed.family, parsed.bits, prefixLength,
      maskValue parsed.value (parsed.bits - prefixLength)⟩)

def parseTrustedProxyEntry (entry : Text) : Except String (Option Range) :=
  let raw := trim entry
  if raw = [] then .ok none
  else do
    -- `const [address, prefixRaw] = raw.split('/')` drops what a second slash begins
    let parts := raw.splitOn '/'
    let parsed ← ipValue (parts.headD [])
    rangeWith raw parsed (prefixOf parsed.bits parts.tail.head?)

def compileTrustedProxies (value : Text) : Except String (List Range) :=
  ((value.splitOn ',').mapM parseTrustedProxyEntry).map (fun ranges => ranges.filterMap id)

def Range.holds (range : Range) (parsed : Parsed) : Bool :=
  range.family = parsed.family &&
    maskValue parsed.value (range.bits - range.prefixLength) = range.network

def isTrustedProxy (ip : Text) (ranges : List Range) : Bool :=
  match ipValue ip with
  | .error _ => false
  | .ok parsed => ranges.any (fun range => range.holds parsed)

/-- Of the request: `socket.remoteAddress` and `headers['x-real-ip']`, where they are there. -/
def clientIpFromRequest (remoteAddress realIp : Option Text) (trustedProxies : List Range) : Text :=
  let socketIp := normalizeIp (remoteAddress.getD [])
  if socketIp = [] then []
  else if !isTrustedProxy socketIp trustedProxies then socketIp
  else
    let forwarded := normalizeIp (realIp.getD [])
    if forwarded ≠ [] then forwarded else socketIp

/-! ## The address a text is written as -/

/-- The dotted form of a mapped address is an IPv4 address; any other text is what it says. -/
def addressOf (ip : Text) : Option Address := read (unmapDotted ip)

/-! ## IPv4 -/

variable {n : Nat}

theorem octetValue_eq {s : Text} (h : octet s = some n) : octetValue s = n := by
  obtain ⟨⟨hne, hdigits, -, hle⟩, rfl⟩ := octet_eq_some.mp h
  rw [octetValue, JsNumber.number_of_digits hne (List.all_eq_true.mp hdigits),
    JsNumber.toDouble_natCast (by omega), Option.getD_some, Rat.num_natCast, Int.toNat_natCast]

theorem shift_or {v g : Nat} {k : Nat} (h : g < 2 ^ k) : v <<< k ||| g = v * 2 ^ k + g := by
  rw [← Nat.shiftLeft_add_eq_or_of_lt h, Nat.shiftLeft_eq]

variable {t : Text}

theorem ipv4ToBigInt_eq (h : parseV4 t = some n) : ipv4ToBigInt t = n := by
  obtain ⟨a, b, c, d, hsplit, rfl⟩ := parseV4_eq_some h
  obtain ⟨-, pa, pb, pc, pd, hparts, -⟩ := parseV4_chars h
  rw [hparts] at hsplit
  obtain ⟨a', as, ha, has, heq⟩ := mapM_cons_eq_some.mp hsplit
  obtain ⟨b', bs, hb, hbs, rfl⟩ := mapM_cons_eq_some.mp has
  obtain ⟨c', cs, hc, hcs, rfl⟩ := mapM_cons_eq_some.mp hbs
  obtain ⟨d', ds, hd, hds, rfl⟩ := mapM_cons_eq_some.mp hcs
  cases heq
  have hlt : ∀ {s : Text} {m : Nat}, octet s = some m → m < 2 ^ 8 := fun hs =>
    Nat.lt_succ_of_le (octet_digits hs).1
  rw [ipv4ToBigInt, hparts]
  simp only [List.foldl_cons, List.foldl_nil, octetValue_eq ha, octetValue_eq hb, octetValue_eq hc,
    octetValue_eq hd]
  rw [shift_or (hlt ha), shift_or (hlt hb), shift_or (hlt hc), shift_or (hlt hd)]
  omega

theorem isDotted_of_parseV4 (h : parseV4 t = some n) : isDotted t = true := by
  obtain ⟨-, a, b, c, d, hparts, hall⟩ := parseV4_chars h
  rw [isDotted, hparts, Bool.and_eq_true]
  refine ⟨rfl, List.all_eq_true.mpr (fun p hp => ?_)⟩
  rw [Bool.and_eq_true, decide_eq_true_eq]
  exact ⟨(hall p hp).1, List.all_eq_true.mpr (hall p hp).2⟩

theorem chars_of_isDotted (h : isDotted t = true) {c : Char} (hc : c ∈ t) :
    isDigit c = true ∨ c = '.' := by
  rw [isDotted, Bool.and_eq_true] at h
  have htext : ['.'].intercalate (t.splitOn '.') = t := List.intercalate_splitOn '.'
  rw [← htext] at hc
  rcases mem_intercalate hc with hc | ⟨p, hp, hc⟩
  · exact .inr hc
  · have hpart := List.all_eq_true.mp h.2 p hp
    rw [Bool.and_eq_true] at hpart
    exact .inl (List.all_eq_true.mp hpart.2 c hc)

theorem not_isDotted (h : ':' ∈ t) : isDotted t = false := by
  rw [Bool.eq_false_iff]
  intro hdotted
  rcases chars_of_isDotted hdotted h with h' | h' <;> exact absurd h' (by decide)

/-! ## The tail in decimal -/

theorem ipv4Tail_none (h : '.' ∉ t) : ipv4Tail t = none := by
  induction t with
  | nil => rfl
  | cons c rest ih =>
    have hdotted : isDotted (c :: rest) = false := by
      rw [isDotted, List.splitOn_eq_singleton h]
      rfl
    rw [ipv4Tail, hdotted, if_neg Bool.false_ne_true]
    exact ih (fun hrest => h (List.mem_cons_of_mem c hrest))

theorem ipv4Tail_append {d : Text} (hd : isDotted d = true) : ∀ {a : Text},
    (a = [] ∨ a.getLast? = some ':') → ipv4Tail (a ++ d) = some d
  | [], _ => by
    cases d with
    | nil => exact absurd hd (by decide)
    | cons c rest => rw [List.nil_append, ipv4Tail, if_pos hd]
  | c :: a, h => by
    have hlast : (c :: a).getLast? = some ':' := h.resolve_left (List.cons_ne_nil c a)
    have hcolon : ':' ∈ c :: a ++ d := List.mem_append_left d (List.mem_of_getLast? hlast)
    rw [List.cons_append, ipv4Tail, ← List.cons_append, not_isDotted hcolon,
      if_neg Bool.false_ne_true]
    apply ipv4Tail_append hd
    cases a with
    | nil => exact .inl rfl
    | cons b a => exact .inr (by rwa [List.getLast?_cons_cons] at hlast)

theorem replaceTail_append {a d : Text} (hd : parseV4 d = some n)
    (ha : a = [] ∨ a.getLast? = some ':') :
    replaceTail (a ++ d) = a ++ (hex (n / 65536) ++ ':' :: hex (n % 65536)) := by
  have hlt := parseV4_lt hd
  have hhigh : (n >>> 16) &&& 0xffff = n / 65536 := by
    rw [show (0xffff : Nat) = 2 ^ 16 - 1 from rfl, Nat.and_two_pow_sub_one_eq_mod,
      Nat.shiftRight_eq_div_pow]
    omega
  have hlow : n &&& 0xffff = n % 65536 := by
    rw [show (0xffff : Nat) = 2 ^ 16 - 1 from rfl, Nat.and_two_pow_sub_one_eq_mod]
  simp only [replaceTail, ipv4Tail_append (isDotted_of_parseV4 hd) ha, ipv4ToBigInt_eq hd, hhigh,
    hlow, List.length_append, Nat.add_sub_cancel, List.take_left]

variable {gs : List Nat}

theorem replaceTail_joined {a : Text} {segs : List Text}
    (h : groups segs = some gs) (hdot : '.' ∉ a) (ha : a = [] ∨ a.getLast? = some ':') :
    ∃ segs', segs'.mapM hexSeg = some gs ∧
      replaceTail (a ++ joined segs) = a ++ joined segs' := by
  rcases groups_eq_some h with hall | ⟨front, hs, d, n, rfl, hfront, hn, rfl⟩
  · refine ⟨segs, hall, ?_⟩
    have hnone : '.' ∉ a ++ joined segs := by
      intro hmem
      rcases List.mem_append.mp hmem with hmem | hmem
      · exact hdot hmem
      · rcases mem_intercalate hmem with hcolon | ⟨s, hs, hmem⟩
        · exact absurd hcolon (by decide)
        · obtain ⟨g, hg⟩ := mapM_mem hall s hs
          exact (hexSeg_no_colon hg).2 hmem
    rw [replaceTail, ipv4Tail_none hnone]
  · have hlt := parseV4_lt hn
    have hend : a ++ lead front = [] ∨ (a ++ lead front).getLast? = some ':' := by
      rcases lead_end front with hnil | hlast
      · rwa [hnil, List.append_nil]
      · right
        rw [List.getLast?_append, hlast]
        rfl
    refine ⟨front ++ [hex (n / 65536)] ++ [hex (n % 65536)], ?_, ?_⟩
    · have hhigh : hexSeg (hex (n / 65536)) = some (n / 65536) := hexSeg_toDigits (by omega)
      have hlow : hexSeg (hex (n % 65536)) = some (n % 65536) := hexSeg_toDigits (by omega)
      rw [List.append_assoc, List.mapM_append, hfront, List.singleton_append, List.mapM_cons,
        hhigh, List.mapM_cons, hlow]
      rfl
    · rw [joined_concat, joined_concat, ← List.append_assoc a, replaceTail_append hn hend, lead,
        lead, List.flatMap_append, List.flatMap_singleton]
      simp only [List.append_assoc, List.singleton_append]

/-! ## IPv6 -/

theorem foldl_parts : ∀ {parts : List Text} {gs : List Nat} (v : Nat),
    parts.mapM hexSeg = some gs →
    parts.foldl (fun value part => value <<< 16 ||| hexNumber part) v =
      gs.foldl (fun v g => v * 65536 + g) v
  | [], gs, v, h => by
    cases h
    rfl
  | part :: rest, gs, v, h => by
    obtain ⟨g, gs', hg, hrest, rfl⟩ := mapM_cons_eq_some.mp h
    have hlt : g < 2 ^ 16 := hexSeg_lt hg
    rw [List.foldl_cons, List.foldl_cons, (hexSeg_eq_some.mp hg).2, shift_or hlt]
    exact foldl_parts _ hrest

theorem partsToBigInt_eq {parts : List Text} (h : parts.mapM hexSeg = some gs)
    (hlen : gs.length = 8) : partsToBigInt parts = .ok (groupsValue gs) := by
  have hparts : ¬ (parts.length ≠ 8 ∨ parts.any (fun part => (hexSeg part).isNone) = true) := by
    rw [not_or, not_ne_iff, ← mapM_length h, List.any_eq_true]
    refine ⟨hlen, ?_⟩
    rintro ⟨part, hpart, hnone⟩
    obtain ⟨g, hg⟩ := mapM_mem h part hpart
    rw [hg] at hnone
    cases hnone
  rw [partsToBigInt, if_neg hparts, foldl_parts 0 h, groupsValue]

theorem mapM_zeros (n : Nat) :
    (List.replicate n ['0']).mapM hexSeg = some (List.replicate n 0) := by
  induction n with
  | zero => rfl
  | succ n ih =>
    have hzero : hexSeg ['0'] = some 0 := by decide
    rw [List.replicate_succ, List.replicate_succ, List.mapM_cons, hzero, ih]
    rfl

theorem splitDouble_joined {segs : List Text} (h : segs.mapM hexSeg = some gs) :
    Tight (joined segs) ∧ segments (joined segs) = segs := by
  have hsegs := mapM_hexSeg_segs h
  have hne : ∀ s ∈ segs, s ≠ [] := fun s hs => (hsegs s hs).1
  have hcolon : ∀ s ∈ segs, ':' ∉ s := fun s hs => (hsegs s hs).2
  exact ⟨tight_joined hne hcolon, segments_joined hne hcolon⟩

theorem ipv6ToBigInt_eq (h : parseV6 t = some gs) :
    ipv6ToBigInt t = .ok (groupsValue gs) := by
  rw [← parseV6_map] at h
  have hshape := parseV6_shape h
  have hlen := hshape.groups.1
  unfold ipv6ToBigInt
  generalize t.map Char.toLower = ip at hshape
  cases hshape with
  | full segs gs hgs _ =>
    obtain ⟨segs', hsegs', hreplace⟩ := replaceTail_joined hgs List.not_mem_nil (.inl rfl)
    obtain ⟨htight, hsegments⟩ := splitDouble_joined hsegs'
    have hcount : segs'.length = 8 := (mapM_length hsegs').symm.trans hlen
    rw [List.nil_append, List.nil_append] at hreplace
    rw [hreplace, splitDouble_of_tight htight]
    have hnil : segments ([] : Text) = [] := rfl
    simp only [List.headD_cons, List.tail_cons, List.headD_nil, hsegments, hnil, hcount,
      List.length_nil, List.append_nil, List.length_singleton]
    show partsToBigInt (segs' ++ []) = _
    rw [List.append_nil]
    exact partsToBigInt_eq hsegs' hlen
  | short left right ls rs hl hr hle =>
    obtain ⟨htightL, hsegmentsL⟩ := splitDouble_joined hl
    have hcolons : joined left ++ [':', ':'] = [] ∨
        (joined left ++ [':', ':']).getLast? = some ':' := by
      right
      rw [List.getLast?_append]
      rfl
    have hdot : '.' ∉ joined left ++ [':', ':'] := by
      intro hmem
      rcases List.mem_append.mp hmem with hmem | hmem
      · rcases mem_intercalate hmem with hcolon | ⟨s, hs, hmem⟩
        · exact absurd hcolon (by decide)
        · obtain ⟨g, hg⟩ := mapM_mem hl s hs
          exact (hexSeg_no_colon hg).2 hmem
      · exact absurd hmem (by decide)
    obtain ⟨right', hright', hreplace⟩ := replaceTail_joined hr hdot hcolons
    obtain ⟨htightR, hsegmentsR⟩ := splitDouble_joined hright'
    have hcountL : left.length = ls.length := (mapM_length hl).symm
    have hcountR : right'.length = rs.length := (mapM_length hright').symm
    rw [List.append_assoc, List.append_assoc] at hreplace
    have hsplit : splitDouble (replaceTail (joined left ++ ':' :: ':' :: joined right)) =
        [joined left, joined right'] := by
      rw [show joined left ++ ':' :: ':' :: joined right =
        joined left ++ ([':', ':'] ++ joined right) from rfl, hreplace]
      show splitDouble (joined left ++ ':' :: ':' :: joined right') = _
      rw [splitDouble_append _ htightL, splitDouble_of_tight htightR]
    rw [hsplit]
    simp only [List.headD_cons, List.tail_cons, hsegmentsL, hsegmentsR, hcountL, hcountR]
    have hsides : ¬ (ls.length + rs.length > 8 ∨
        [joined left, joined right'].length = 1 ∧ ls.length + rs.length ≠ 8) := by
      rintro (hmore | ⟨hone, -⟩)
      · omega
      · cases hone
    have htwo : ¬ [joined left, joined right'].length > 2 := lt_irrefl 2
    rw [if_neg htwo, if_neg hsides]
    refine partsToBigInt_eq ?_ hlen
    rw [List.mapM_append, List.mapM_append, hl, mapM_zeros, hright']
    rfl

/-! ## Any address -/

theorem percent_bare (value : Text) : '%' ∉ bare value := by
  intro h
  have hkept := List.mem_takeWhile_imp (p := fun c => decide (c ≠ '%')) h
  exact absurd rfl (of_decide_eq_true hkept)

variable {ip : Text}

theorem percent_unmapDotted (h : '%' ∉ ip) : '%' ∉ unmapDotted ip := by
  unfold unmapDotted
  split
  · exact fun hmem => h (List.mem_of_mem_drop hmem)
  · exact h

theorem percent_toLower (h : '%' ∉ ip) : '%' ∉ ip.map Char.toLower := by
  intro hmem
  obtain ⟨c, hc, hpercent⟩ := List.mem_map.mp hmem
  exact h ((toLower_eq_iff (by decide) (by decide)).mp hpercent ▸ hc)

theorem isIP_map (h : '%' ∉ ip) : isIP (ip.map Char.toLower) = isIP ip := by
  rw [isIP_of_no_zone (percent_toLower h), isIP_of_no_zone h, parseV4_map, parseV6_map]

theorem read_eq_none (h : '%' ∉ ip) : read ip = none ↔ isIP ip = 0 := by
  rw [isIP_of_no_zone h, IpText.read]
  cases parseV4 ip <;> cases parseV6 ip <;> simp

def parsedOf (a : Address) : Parsed := ⟨a.family, a.family.bits, a.value⟩

theorem ipValue_of_address {a : Address} (h : addressOf (bare ip) = some a) :
    ipValue ip = .ok (parsedOf a) := by
  have hpercent := percent_unmapDotted (percent_bare ip)
  rw [addressOf] at h
  have hfamily : isIP (unmapDotted (bare ip)) ≠ 0 := by
    rw [Ne, ← read_eq_none hpercent, h]
    exact Option.some_ne_none a
  have hnormal : normalizeIp ip = (unmapDotted (bare ip)).map Char.toLower := by
    simp only [normalizeIp, if_pos hfamily]
  simp only [ipValue, hnormal, isIP_map hpercent]
  generalize unmapDotted (bare ip) = core at hpercent h hfamily
  rw [isIP_of_no_zone hpercent] at hfamily ⊢
  cases h4 : parseV4 core with
  | some n =>
    rw [IpText.read, h4] at h
    cases h
    rw [← parseV4_map] at h4
    rw [Option.isSome_some, if_pos rfl, if_pos rfl, ipv4ToBigInt_eq h4]
    rfl
  | none =>
    cases h6 : parseV6 core with
    | none =>
      rw [h4, h6] at hfamily
      exact absurd rfl hfamily
    | some gs =>
      rw [IpText.read, h4, h6] at h
      cases h
      rw [← parseV6_map] at h6
      rw [ipv6ToBigInt_eq h6]
      rfl

theorem ipValue_of_none (h : addressOf (bare ip) = none) :
    ipValue ip = .error ("Endereço IP inválido: " ++ String.ofList ip) := by
  have hpercent := percent_unmapDotted (percent_bare ip)
  have hfamily : isIP (unmapDotted (bare ip)) = 0 := (read_eq_none hpercent).mp h
  have hnormal : normalizeIp ip = [] := by
    simp only [normalizeIp, hfamily, ne_eq, not_true_eq_false, if_false]
  have hnil : isIP [] = 0 := by decide
  simp only [ipValue, hnormal, hnil]
  rfl

/-! ## Mapped addresses -/

theorem dot_of_isDotted (h : isDotted t = true) : '.' ∈ t := by
  by_contra hdot
  rw [isDotted, List.splitOn_eq_singleton hdot] at h
  cases h

theorem denotes_eq (ip : Text) : denotes ip = (addressOf ip).map Address.unmap := by
  rw [addressOf, unmapDotted, denotes]
  split
  · next h =>
    rw [isMappedDotted, Bool.and_eq_true, decide_eq_true_eq] at h
    obtain ⟨hstart, hdotted⟩ := h
    have htext : ip.map Char.toLower = mappedStart ++ (ip.drop 7).map Char.toLower := by
      rw [← hstart, ← List.map_append, List.take_append_drop]
    rw [← read_map ip, ← read_map (ip.drop 7), htext]
    have hcolon : ':' ∉ (ip.drop 7).map Char.toLower := by
      intro hmem
      obtain ⟨c, hc, heq⟩ := List.mem_map.mp hmem
      rw [toLower_eq_iff (by decide) (by decide)] at heq
      rw [not_isDotted (heq ▸ hc)] at hdotted
      cases hdotted
    have hdot : '.' ∈ (ip.drop 7).map Char.toLower :=
      List.mem_map.mpr ⟨'.', dot_of_isDotted hdotted, rfl⟩
    generalize (ip.drop 7).map Char.toLower = d at hcolon hdot
    have hno4 : parseV4 (mappedStart ++ d) = none := by
      cases h4 : parseV4 (mappedStart ++ d) with
      | none => rfl
      | some n => exact absurd (List.mem_append_left d (by decide)) (parseV4_no_colon h4).2
    rw [IpText.read, IpText.read, hno4, parseV6_mapped hcolon hdot]
    cases h4 : parseV4 d with
    | none =>
      rw [parseV6_no_colon h4 hcolon]
      rfl
    | some n =>
      have hlt := parseV4_lt h4
      simp only [Option.map_some, groupsValue_mapped, unmap_mapped hlt, unmap_v4]
  · rfl

end Drac.Central.ProxyTrust
