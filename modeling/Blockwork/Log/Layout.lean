import Blockwork.Log.Record
import Blockwork.Number.Layout
import Blockwork.Text.Blank

set_option autoImplicit false

namespace Blockwork

inductive LogFormat where
  | text
  | json
deriving DecidableEq, Repr, Inhabited

namespace LogFormat

def named? : String → Option LogFormat
  | "json" => some .json
  | "text" | "" => some .text
  | _ => none

def name : LogFormat → String
  | .text => "text"
  | .json => "json"

def unknownMessage (word : String) : String := s!"unknown log format {Text.quoted word}"

end LogFormat

namespace LogText

def breaksWord (c : Char) : Bool :=
  if c.toNat < 0x80 then c == ' ' || c == '=' || c == '"' || c.toNat < 0x20
  else c.toNat == 0xfffd || Text.isBlank c || !Text.isPrintable c

def word (s : String) : String :=
  if s.isEmpty || s.toList.any breaksWord then Text.quoted s else s

def value : LogValue → String
  | .text s => word s
  | .number v => v.text
  | .count n => toString n
  | .flag b => if b then "true" else "false"
  | .names xs => word ("[" ++ " ".intercalate xs ++ "]")
  | .nothing => "<nil>"

def pairs (path : String) : List LogField → List String
  | [] => []
  | .attr "" .nothing :: rest => pairs path rest
  | .attr key v :: rest => s!"{word (path ++ key)}={value v}" :: pairs path rest
  | .group name fields :: rest => pairs (path ++ name ++ ".") fields ++ pairs path rest

def line (time : String) (r : LogRecord) : String :=
  " ".intercalate
    ([s!"time={time}", s!"level={r.level.name}", s!"msg={word r.message}"] ++ pairs "" r.fields)

end LogText

namespace LogJson

def escapeChar (c : Char) : List Char :=
  match c with
  | '"' => ['\\', '"']
  | '\\' => ['\\', '\\']
  | '\x08' => ['\\', 'b']
  | '\x0c' => ['\\', 'f']
  | '\n' => ['\\', 'n']
  | '\r' => ['\\', 'r']
  | '\t' => ['\\', 't']
  | c =>
    if c.toNat < 0x20 || c.toNat == 0x2028 || c.toNat == 0x2029 then '\\' :: 'u' :: Text.hex 4 c.toNat
    else [c]

def string (s : String) : String :=
  String.ofList ('"' :: s.toList.flatMap escapeChar ++ ['"'])

def value : LogValue → String
  | .text s => string s
  | .number v => v.write Layout.json
  | .count n => toString n
  | .flag b => if b then "true" else "false"
  | .names [] => "null"
  | .names xs => "[" ++ ",".intercalate (xs.map string) ++ "]"
  | .nothing => "null"

def members : List LogField → List String
  | [] => []
  | .attr "" .nothing :: rest => members rest
  | .attr key v :: rest => s!"{string key}:{value v}" :: members rest
  | .group name fields :: rest =>
    (string name ++ ":\x7b" ++ ",".intercalate (members fields) ++ "\x7d") :: members rest

def line (time : String) (r : LogRecord) : String :=
  let head := [s!"\"time\":{string time}", s!"\"level\":{string r.level.name}",
    s!"\"msg\":{string r.message}"]
  "\x7b" ++ ",".intercalate (head ++ members r.fields) ++ "\x7d"

end LogJson

structure LogStyle where
  level : LogLevel
  format : LogFormat
deriving DecidableEq, Repr

namespace LogStyle

def standard : LogStyle := ⟨.warn, .text⟩

def line? (style : LogStyle) (time : String) (r : LogRecord) : Option String :=
  if r.level.code < style.level.code then none
  else
    match style.format with
    | .text => some (LogText.line time r)
    | .json => some (LogJson.line time r)

def write (style : LogStyle) (time : String) (rs : List LogRecord) : String :=
  String.join ((rs.filterMap (style.line? time)).map (· ++ "\n"))

end LogStyle

end Blockwork
