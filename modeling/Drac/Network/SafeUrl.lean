import Drac.Lib.CommaList
import Drac.Lib.JsNumber

/-
  Which addresses the API may open a connection to.

  Under the source's names: parseIpv4Octets, isPrivateIpv4, normalizeIp, blockListHas,
  assertCameraTargetAllowed, isPrivateIpv6, isPrivateOrReservedIp, and parseCidrList with
  `readEntry` for an entry of it.

  A camera must be in the configured networks, and in none of the denied ones; a webhook must not
  resolve to a private address. A `BlockList` is its networks, and `check` is exact: an address is
  in a network if it shares the first bits, IPv4 being a part of IPv6 (`Cidr.holds`).
-/

namespace Drac.Network.SafeUrl

open IpText CommaList

/-! ## Lists of networks -/

def developmentCameraCidrs : Text := "10.0.0.0/8,172.16.0.0/12,192.168.0.0/16,fc00::/7".toList

def alwaysDeniedCameraCidrs : Text :=
  "0.0.0.0/8,100.64.0.0/10,127.0.0.0/8,169.254.0.0/16,224.0.0.0/4,240.0.0.0/4,".toList ++
    "::/128,::1/128,fe80::/10,ff00::/8".toList

/-- `entry.slice(0, slash)`, with the last slash. -/
def addressPart (entry : Text) : Text :=
  if '/' ∈ entry then ((entry.reverse.dropWhile (· ≠ '/')).drop 1).reverse else entry

/-- `entry.slice(slash + 1)`, if there is a slash. -/
def prefixPart (entry : Text) : Option Text :=
  if '/' ∈ entry then some (entry.reverse.takeWhile (· ≠ '/')).reverse else none

/-- `slash === -1 ? maxPrefix : Number(text)`, an integer from 0 to `maxPrefix`. -/
def prefixNumber (maxPrefix : Nat) : Option Text → Option Nat
  | none => some maxPrefix
  | some text => JsNumber.intWithin maxPrefix (JsNumber.number text)

/-- One turn of the loop of `parseCidrList`: the network that is added. -/
def readEntry (label : String) (entry : Text) : Except String Cidr :=
  let address := addressPart entry
  let familyNumber := isIP address
  if familyNumber = 0 then .error (label ++ " contém endereço/CIDR inválido.")
  else
    let maxPrefix := if familyNumber = 4 then 32 else 128
    match prefixNumber maxPrefix (prefixPart entry) with
    | none => .error (label ++ " contém prefixo CIDR inválido.")
    | some length =>
      -- `addSubnet` takes no zone
      match read address with
      | none => .error (label ++ " contém endereço/CIDR inválido.")
      | some parsed => .ok ⟨parsed, length⟩

def parseCidrList (value : Text) (label : String) : Except String (List Cidr) :=
  (items value).mapM (readEntry label)

/-- `list.check` of what is no address is false. -/
def blockListHas (list : List Cidr) (ip : Text) : Bool :=
  match read ip with
  | none => false
  | some a => list.any (fun c => c.holds a)

/-! ## Cameras -/

def normalizeIp (ip : Text) : Text :=
  if mappedStart <+: ip then ip.drop 7 else ip

/-- The variables of the environment that are read. -/
structure Source where
  cameraDeniedCidrs : Option Text
  cameraAllowedCidrs : Option Text
  nodeEnv : Option Text

def Source.deniedText (source : Source) : Text :=
  alwaysDeniedCameraCidrs ++ ',' :: source.cameraDeniedCidrs.getD []

def Source.configuredAllowed (source : Source) : Text := trim (source.cameraAllowedCidrs.getD [])

def Source.production (source : Source) : Bool :=
  (trim (source.nodeEnv.getD [])).map Char.toLower = "production".toList

def Source.allowedText (source : Source) : Text :=
  if source.configuredAllowed ≠ [] then source.configuredAllowed else developmentCameraCidrs

/-- `port === undefined || port === null`, or an integer from 1 to 65535. -/
def portAllowed (port : Option ℚ) : Bool :=
  port.all (fun p => p.den = 1 ∧ 1 ≤ p ∧ p ≤ 65535)

def assertCameraTargetAllowed (ipRaw : Text) (port : Option ℚ) (source : Source) :
    Except String Text :=
  let ip := normalizeIp (trim ipRaw)
  if ip = [] ∨ isIP ip = 0 then
    .error "O destino da câmera deve ser um endereço IP literal válido."
  else if portAllowed port = false then
    .error "A porta da câmera deve estar entre 1 e 65535."
  else do
    let denied ← parseCidrList source.deniedText "CAMERA_DENIED_CIDRS"
    if blockListHas denied ip = true then
      .error "Destino de câmera bloqueado pela política de rede."
    else if source.configuredAllowed = [] ∧ source.production = true then
      .error "CAMERA_ALLOWED_CIDRS não está configurado; conexões de câmera estão bloqueadas."
    else do
      let allowed ← parseCidrList source.allowedText "CAMERA_ALLOWED_CIDRS"
      if blockListHas allowed ip = false then
        .error "Destino fora das redes de câmera autorizadas."
      else .ok ip

/-! ## Private and reserved addresses -/

def parseIpv4Octets (ip : Text) : Option (List Nat) :=
  let parts := ip.splitOn '.'
  if parts.length ≠ 4 then none
  else parts.mapM (fun part => JsNumber.intWithin 255 (JsNumber.number part))

def isPrivateIpv4 (ip : Text) : Bool :=
  match parseIpv4Octets ip with
  | some (a :: b :: _) =>
    a = 10 || a = 127 || (a = 169 && b = 254) || (a = 192 && b = 168) ||
      (a = 172 && 16 ≤ b && b ≤ 31) || a = 0 || 224 ≤ a
  | _ => false

def isPrivateIpv6 (ip : Text) : Bool :=
  let normalized := ip.map Char.toLower
  normalized = [':', ':', '1'] ||
    ['f', 'c'] <+: normalized || ['f', 'd'] <+: normalized ||
    ['f', 'e', '8'] <+: normalized || ['f', 'e', '9'] <+: normalized ||
    ['f', 'e', 'a'] <+: normalized || ['f', 'e', 'b'] <+: normalized

def isPrivateOrReservedIp (ipRaw : Text) : Bool :=
  let ip := normalizeIp ipRaw
  let version := isIP ip
  if version = 4 then isPrivateIpv4 ip
  else if version = 6 then isPrivateIpv6 ip
  else false

end Drac.Network.SafeUrl
