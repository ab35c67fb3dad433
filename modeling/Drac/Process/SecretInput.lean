import Mathlib.Algebra.GroupWithZero.Nat
import Drac.Lib.AsciiCase
import Drac.Lib.TokenQuoting

/-
  The private input of a media process.

  Correspondence (`secret-url-process.helper.ts` ↔ Lean):
    assertSecretUrl, SECRET_INPUT_OPTION_NAMES   ↔ the same names
    buildSecretConcatDocument   ↔ the same name, a line of an option `optionLine`
    prepareSecretInput   ↔ the same name, its loop `collect`

  The url goes to ffmpeg in a script of the concat demuxer over a pipe, and not as an argument;
  so do the options of the input. `readDocument` is how the demuxer reads the script: one
  directive a line, a keyword and its arguments. `parseUrl` stands for `new URL(value)`, the
  protocol where it does not throw.
-/

namespace Drac.Process

open ConcatScript (isBlank lines quoted)
open TokenQuoting (readArgument escaped)

abbrev Text := List Char

/-! ## The document -/

/-- `Buffer.byteLength(value, 'utf8')`. -/
def byteLength (value : Text) : Nat := (value.map Char.utf8Size).sum

/-- `/[\0\r\n]/.test(value)`. -/
def hasBreak (value : Text) : Bool := value.any (fun c => c.toNat = 0 || c = '\r' || c = '\n')

def maxSecretUrlBytes : Nat := 16 * 1024

def secretProtocols : List Text :=
  ["rtsp:".toList, "rtsps:".toList, "http:".toList, "https:".toList]

def assertSecretUrl (parseUrl : Text → Option Text) (value : Text) : Except String Unit :=
  if value = [] || maxSecretUrlBytes < byteLength value || hasBreak value then
    .error "URL secreta inválida para o processo de mídia."
  else
    match parseUrl value with
    | none => .error "URL secreta inválida para o processo de mídia."
    | some protocol =>
      if protocol ∈ secretProtocols then .ok ()
      else .error "Protocolo não permitido para o processo de mídia."

/-- `/^[a-z0-9_]+$/i.test(name)`. -/
def isOptionName (name : Text) : Bool := name ≠ [] && name.all (fun c => c.isAlphanum || c = '_')

def optionLine (option : Text × Text) : Except String Text :=
  if !isOptionName option.1 || option.2 = [] || 4096 < byteLength option.2 || hasBreak option.2 then
    .error "Opção inválida para o canal privado de mídia."
  else .ok ("option ".toList ++ option.1 ++ ' ' :: escaped option.2)

def buildSecretConcatDocument (parseUrl : Text → Option Text) (secretUrl : Text)
    (inputOptions : List (Text × Text)) : Except String Text := do
  assertSecretUrl parseUrl secretUrl
  let optionLines ← inputOptions.mapM optionLine
  return ['\n'].intercalate (["ffconcat version 1.0".toList, "file ".toList ++ quoted secretUrl] ++
    optionLines ++ [[]])

/-! ## The arguments -/

def secretInputUrl : Text := "pipe:3".toList

def inputProtocols : Text := "file,pipe,tcp,udp,rtp,rtsp,http,https,tls".toList

def secretInputOptionNames : List Text :=
  ["-analyzeduration".toList, "-err_detect".toList, "-fflags".toList, "-flags".toList,
    "-max_delay".toList, "-probesize".toList, "-rtsp_transport".toList, "-rw_timeout".toList,
    "-stimeout".toList, "-timeout".toList, "-user_agent".toList]

/-- The loop over the arguments, with as many of them left before the input: those that stay,
and the options that move into the document. -/
def collect : List Text → Nat → Except String (List Text × List (Text × Text))
  | _, 0 => .ok ([], [])
  | [], _ + 1 => .ok ([], [])
  | [name], _ + 1 =>
    if name ∈ secretInputOptionNames then
      .error ("Opção " ++ String.ofList name ++ " sem valor no comando de mídia.")
    else .ok ([name], [])
  | name :: value :: rest, n + 1 =>
    if name ∈ secretInputOptionNames then
      (collect rest (n - 1)).map (fun r => (r.1, (name.drop 1, value) :: r.2))
    else (collect (value :: rest) n).map (fun r => (name :: r.1, r.2))

/-- What the process is started with, and what it reads from its input. -/
structure SecretInput where
  args : List Text
  document : Text

def documentArgs : List Text :=
  ["-protocol_whitelist".toList, inputProtocols, "-f".toList, "concat".toList, "-safe".toList,
    "0".toList, "-i".toList, secretInputUrl]

def prepareSecretInput (parseUrl : Text → Option Text) (args : List Text) (secretUrl : Text) :
    Except String SecretInput := do
  assertSecretUrl parseUrl secretUrl
  match (List.range args.length).filter (fun index => args[index]? = some secretUrl) with
  | [index] =>
    let inputStart :=
      if 0 < index ∧ args[index - 1]? = some "-i".toList then index - 1 else index
    let collected ← collect args inputStart
    let document ← buildSecretConcatDocument parseUrl secretUrl collected.2
    return ⟨collected.1 ++ documentArgs ++ args.drop (index + 1), document⟩
  | _ => .error "O comando de mídia deve conter exatamente uma ocorrência da URL secreta."

/-! ## The demuxer -/

inductive Directive where
  | version
  | file (path : Text)
  | option (name value : Text)
  deriving DecidableEq

/-- A string argument, which must not be empty. -/
def readString (text : Text) : Option Text :=
  if readArgument text = [] then none else some (readArgument text)

/-- The directive of a line, if it has one; `none` where the line is no directive. -/
def readDirective (line : Text) : Option (Option Directive) :=
  let body := line.dropWhile isBlank
  if body = [] ∨ body.head? = some '#' then some none
  else
    let word := body.takeWhile (fun c => !isBlank c)
    let rest := (body.dropWhile (fun c => !isBlank c)).dropWhile isBlank
    if word = "ffconcat".toList then
      if rest = "version 1.0".toList then some (some .version) else none
    else if word = "file".toList then (readString rest).map (fun path => some (.file path))
    else if word = "option".toList then
      (readString (rest.dropWhile (fun c => !isBlank c))).map
        (fun value => some (.option (rest.takeWhile (fun c => !isBlank c)) value))
    else none

/-- The directives of the lines; an option needs a file before it. -/
def readDirectives : Bool → List Text → Option (List Directive)
  | _, [] => some []
  | hasFile, line :: rest =>
    match readDirective line with
    | none => none
    | some none => readDirectives hasFile rest
    | some (some (.option name value)) =>
      if hasFile then (readDirectives hasFile rest).map (.option name value :: ·) else none
    | some (some (.file path)) => (readDirectives true rest).map (.file path :: ·)
    | some (some .version) => (readDirectives hasFile rest).map (.version :: ·)

def readDocument (document : Text) : Option (List Directive) :=
  readDirectives false (lines document)

end Drac.Process
