/-
  SHA-256 and HMAC, to be evaluated.

  Words are natural numbers below `2 ^ 32`, a message is a list of bytes. `eager` has a number
  computed before it is used, so that the rounds are evaluated one after the other.

    mem_hex            the digits of a digest in hexadecimal are in lower case;
    hexDigest_ne_nil   and there are some.
-/

namespace Sha256

def eager {β : Type} (x : Nat) (f : Nat → β) : β :=
  match x with
  | 0 => f 0
  | n + 1 => f (n + 1)

@[simp] theorem eager_eq {β : Type} (x : Nat) (f : Nat → β) : eager x f = f x := by
  cases x <;> rfl

/-! ## Words -/

def word (n : Nat) : Nat := n % 4294967296

def rotr (n x : Nat) : Nat := (x >>> n) ||| word (x <<< (32 - n))

/-- The bytes of a number, the highest first. -/
def bytesOf (width n : Nat) : List Nat :=
  (List.range width).reverse.map (fun i => (n >>> (8 * i)) % 256)

def words : List Nat → List Nat
  | a :: b :: c :: d :: rest => (((a * 256 + b) * 256 + c) * 256 + d) :: words rest
  | _ => []

/-! ## The compression -/

/-- The eight words of the state. -/
structure State where
  a : Nat
  b : Nat
  c : Nat
  d : Nat
  e : Nat
  f : Nat
  g : Nat
  h : Nat

def round (s : State) (k w : Nat) : State :=
  let sum1 := rotr 6 s.e ^^^ rotr 11 s.e ^^^ rotr 25 s.e
  let choice := (s.e &&& s.f) ^^^ ((4294967295 - s.e) &&& s.g)
  let sum0 := rotr 2 s.a ^^^ rotr 13 s.a ^^^ rotr 22 s.a
  let majority := (s.a &&& s.b) ^^^ (s.a &&& s.c) ^^^ (s.b &&& s.c)
  eager (s.h + sum1 + choice + k + w) (fun t =>
    eager (word (t + sum0 + majority)) (fun a =>
      eager (word (s.d + t)) (fun e => ⟨a, s.a, s.b, s.c, e, s.e, s.f, s.g⟩)))

/-- The word after sixteen of the schedule. -/
def nextWord (w : List Nat) : Nat :=
  let w1 := w.getD 1 0
  let w14 := w.getD 14 0
  word ((rotr 17 w14 ^^^ rotr 19 w14 ^^^ (w14 >>> 10)) + w.getD 9 0 +
    (rotr 7 w1 ^^^ rotr 18 w1 ^^^ (w1 >>> 3)) + w.getD 0 0)

def rounds : List Nat → State → List Nat → State
  | [], s, _ => s
  | k :: ks, s, w =>
    eager (nextWord w) (fun next => rounds ks (round s k (w.getD 0 0)) (w.drop 1 ++ [next]))

def constants : List Nat := [
  0x428a2f98, 0x71374491, 0xb5c0fbcf, 0xe9b5dba5, 0x3956c25b, 0x59f111f1, 0x923f82a4, 0xab1c5ed5,
  0xd807aa98, 0x12835b01, 0x243185be, 0x550c7dc3, 0x72be5d74, 0x80deb1fe, 0x9bdc06a7, 0xc19bf174,
  0xe49b69c1, 0xefbe4786, 0x0fc19dc6, 0x240ca1cc, 0x2de92c6f, 0x4a7484aa, 0x5cb0a9dc, 0x76f988da,
  0x983e5152, 0xa831c66d, 0xb00327c8, 0xbf597fc7, 0xc6e00bf3, 0xd5a79147, 0x06ca6351, 0x14292967,
  0x27b70a85, 0x2e1b2138, 0x4d2c6dfc, 0x53380d13, 0x650a7354, 0x766a0abb, 0x81c2c92e, 0x92722c85,
  0xa2bfe8a1, 0xa81a664b, 0xc24b8b70, 0xc76c51a3, 0xd192e819, 0xd6990624, 0xf40e3585, 0x106aa070,
  0x19a4c116, 0x1e376c08, 0x2748774c, 0x34b0bcb5, 0x391c0cb3, 0x4ed8aa4a, 0x5b9cca4f, 0x682e6ff3,
  0x748f82ee, 0x78a5636f, 0x84c87814, 0x8cc70208, 0x90befffa, 0xa4506ceb, 0xbef9a3f7, 0xc67178f2]

def compress (s : State) (block : List Nat) : State :=
  let t := rounds constants s block
  eager (word (s.a + t.a)) (fun a => eager (word (s.b + t.b)) (fun b =>
    eager (word (s.c + t.c)) (fun c => eager (word (s.d + t.d)) (fun d =>
      eager (word (s.e + t.e)) (fun e => eager (word (s.f + t.f)) (fun f =>
        eager (word (s.g + t.g)) (fun g => eager (word (s.h + t.h)) (fun h =>
          ⟨a, b, c, d, e, f, g, h⟩))))))))

/-! ## Digests -/

def initial : State :=
  ⟨0x6a09e667, 0xbb67ae85, 0x3c6ef372, 0xa54ff53a, 0x510e527f, 0x9b05688c, 0x1f83d9ab, 0x5be0cd19⟩

def padded (bytes : List Nat) : List Nat :=
  bytes ++ 0x80 :: List.replicate ((119 - bytes.length % 64) % 64) 0 ++
    bytesOf 8 (8 * bytes.length)

/-- So many blocks of sixteen words. -/
def blocks : Nat → List Nat → State → State
  | 0, _, s => s
  | n + 1, ws, s => blocks n (ws.drop 16) (compress s (ws.take 16))

def digest (bytes : List Nat) : List Nat :=
  let ws := words (padded bytes)
  let s := blocks (ws.length / 16) ws initial
  [s.a, s.b, s.c, s.d, s.e, s.f, s.g, s.h].flatMap (bytesOf 4)

def keyBlock (key : List Nat) : List Nat :=
  let short := if 64 < key.length then digest key else key
  short ++ List.replicate (64 - short.length) 0

def hmac (key bytes : List Nat) : List Nat :=
  digest ((keyBlock key).map (· ^^^ 0x5c) ++
    digest ((keyBlock key).map (· ^^^ 0x36) ++ bytes))

/-! ## Texts -/

def utf8 (text : List Char) : List Nat :=
  text.flatMap (fun c => (String.utf8EncodeChar c).map UInt8.toNat)

def hex (bytes : List Nat) : List Char :=
  bytes.flatMap (fun b => [Nat.digitChar (b / 16 % 16), Nat.digitChar (b % 16)])

/-- `createHash('sha256').update(bytes).digest('hex')`. -/
def hexDigest (bytes : List Nat) : List Char := hex (digest bytes)

/-- `createHmac('sha256', key).update(bytes).digest('hex')`. -/
def hexHmac (key bytes : List Nat) : List Char := hex (hmac key bytes)

theorem mem_hex {bytes : List Nat} {c : Char} (h : c ∈ hex bytes) :
    c ∈ "0123456789abcdef".toList := by
  have hdigit : ∀ n < 16, Nat.digitChar n ∈ "0123456789abcdef".toList := by decide
  obtain ⟨b, -, hb⟩ := List.mem_flatMap.mp h
  simp only [List.mem_cons, List.not_mem_nil, or_false] at hb
  obtain rfl | rfl := hb
  · exact hdigit _ (Nat.mod_lt _ (by decide))
  · exact hdigit _ (Nat.mod_lt _ (by decide))

theorem hexDigest_ne_nil (bytes : List Nat) : hexDigest bytes ≠ [] :=
  List.cons_ne_nil _ _

theorem hexHmac_ne_nil (key bytes : List Nat) : hexHmac key bytes ≠ [] :=
  List.cons_ne_nil _ _

example : hexDigest (utf8 "abc".toList) =
    "ba7816bf8f01cfea414140de5dae2223b00361a396177a9cb410ff61f20015ad".toList := by
  decide +kernel

end Sha256
