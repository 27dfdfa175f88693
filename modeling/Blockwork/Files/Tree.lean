set_option autoImplicit false

namespace Blockwork

inductive FileReason where
  | missing
  | notFolder
  | isFolder
  | present
  | other (text : String)
deriving DecidableEq, Repr

def FileReason.text : FileReason → String
  | .missing => "no such file or directory"
  | .notFolder => "not a directory"
  | .isFolder => "is a directory"
  | .present => "file exists"
  | .other text => text

structure FileFault where
  action : String
  path : String
  reason : FileReason
deriving DecidableEq, Repr

def FileFault.message (f : FileFault) : String := s!"{f.action} {f.path}: {f.reason.text}"

abbrev FilePlace := List String

inductive FileItem where
  | file (text : String)
  | folder
deriving DecidableEq, Repr

structure FileTree where
  files : List (FilePlace × String) := []
  folders : List FilePlace := []
  here : FilePlace := []
deriving DecidableEq, Repr, Inhabited

namespace FileTree

def isFolder (t : FileTree) (place : FilePlace) : Bool :=
  place.isEmpty || place.isPrefixOf t.here || t.folders.any (place.isPrefixOf ·) ||
    t.files.any fun (p, _) => place.isPrefixOf p && place ≠ p

def item? (t : FileTree) (place : FilePlace) : Option FileItem :=
  match t.files.find? (·.1 = place) with
  | some (_, text) => some (.file text)
  | none => if t.isFolder place then some .folder else none

def follow (t : FileTree) (place : FilePlace) : List String → Except FileReason FilePlace
  | [] => .ok place
  | name :: rest =>
    match t.item? place with
    | none => .error .missing
    | some (.file _) => .error .notFolder
    | some .folder =>
      if name = "" ∨ name = "." then t.follow place rest
      else if name = ".." then t.follow place.dropLast rest
      else t.follow (place ++ [name]) rest

def locate (t : FileTree) (path : String) : Except FileReason FilePlace :=
  if path.isEmpty then .error .missing
  else t.follow (if path.startsWith "/" then [] else t.here) (path.splitOn "/")

def look (t : FileTree) (path : String) : Except FileReason FileItem :=
  match t.locate path with
  | .error reason => .error reason
  | .ok place =>
    match t.item? place with
    | none => .error .missing
    | some item => .ok item

def withoutEnd (path : String) : String := String.ofList (path.toList.reverse.dropWhile (· = '/')).reverse

def locateNew (t : FileTree) (path : String) : Except FileReason FilePlace := t.locate (withoutEnd path)

def put (t : FileTree) (place : FilePlace) (text : String) : FileTree :=
  { t with files := t.files.filter (·.1 ≠ place) ++ [(place, text)] }

def readFile (t : FileTree) (path : String) : Except FileFault String :=
  match t.look path with
  | .error reason => .error ⟨"open", path, reason⟩
  | .ok .folder => .error ⟨"read", path, .isFolder⟩
  | .ok (.file text) => .ok text

def updateFile (t : FileTree) (path : String) (f : String → String) : Except FileFault FileTree :=
  if path.startsWith "/" && (withoutEnd path).isEmpty then .error ⟨"open", path, .isFolder⟩
  else
    match t.locateNew path with
    | .error reason => .error ⟨"open", path, reason⟩
    | .ok place =>
      match t.item? place with
      | some .folder => .error ⟨"open", path, .isFolder⟩
      | item =>
        if path.endsWith "/" then .error ⟨"open", path, .isFolder⟩
        else
          match item with
          | some (.file text) => .ok (t.put place (f text))
          | _ => .ok (t.put place (f ""))

def writeFile (t : FileTree) (path text : String) : Except FileFault FileTree := t.updateFile path fun _ => text

def appendFile (t : FileTree) (path text : String) : Except FileFault FileTree :=
  t.updateFile path fun old => old ++ text

def makeFolder (t : FileTree) (path : String) : Except FileFault FileTree :=
  match t.locateNew path with
  | .error reason => .error ⟨"mkdir", path, reason⟩
  | .ok place =>
    match t.item? place with
    | some _ => .error ⟨"mkdir", path, .present⟩
    | none => .ok { t with folders := t.folders ++ [place] }

def above (path : String) : String :=
  String.ofList ((path.toList.reverse.dropWhile (· = '/')).dropWhile (· ≠ '/')).reverse

def makeFoldersWithin : Nat → FileTree → String → Except FileFault FileTree
  | 0, t, _ => .ok t
  | fuel + 1, t, path =>
    match t.look path with
    | .ok .folder => .ok t
    | .ok (.file _) => .error ⟨"mkdir", path, .notFolder⟩
    | .error _ =>
      let parent := if (above path).isEmpty then .ok t else makeFoldersWithin fuel t (above path)
      match parent with
      | .error fault => .error fault
      | .ok t =>
        match t.makeFolder path with
        | .ok t => .ok t
        | .error fault =>
          match t.look path with
          | .ok .folder => .ok t
          | _ => .error fault

def makeFolders (t : FileTree) (path : String) : Except FileFault FileTree :=
  makeFoldersWithin (path.length + 1) t path

end FileTree

end Blockwork
