set_option autoImplicit false

namespace Blockwork.Path

-- Adds a name to the names of a path, the last of which comes first. A name that goes up takes back the one
-- before it; at the root there is nothing to go up to.
def push (rooted : Bool) (names : List String) (name : String) : List String :=
  if name = "" ∨ name = "." then names
  else if name = ".." then
    match names with
    | [] => if rooted then [] else [".."]
    | top :: rest => if top = ".." then ".." :: top :: rest else rest
  else name :: names

def clean (path : String) : String :=
  let rooted := path.startsWith "/"
  let names := ((path.splitOn "/").foldl (push rooted) []).reverse
  if rooted then "/" ++ "/".intercalate names
  else if names.isEmpty then "." else "/".intercalate names

def join (folder path : String) : String :=
  if folder.isEmpty then clean path else clean (folder ++ "/" ++ path)

def isSlash (c : Char) : Bool := c = '/'

def folder (path : String) : String :=
  clean (String.ofList (path.toList.reverse.dropWhile (!isSlash ·)).reverse)

def base (path : String) : String :=
  let name := ((path.toList.reverse.dropWhile isSlash).takeWhile (!isSlash ·)).reverse
  if path.isEmpty then "." else if name.isEmpty then "/" else String.ofList name

def ending (path : String) : List Char :=
  let name := path.toList.reverse.takeWhile (!isSlash ·)
  if name.contains '.' then (name.takeWhile (· ≠ '.') ++ ['.']).reverse else []

def stem (path : String) : String :=
  let name := (base path).toList
  String.ofList (name.take (name.length - (ending path).length))

end Blockwork.Path
