import TapeLang.Files.Load

/-! File trees held in memory. A path names a place in a tree by the names on the way to it; a dot stays
where it is, two dots go back, and a place below a file is none. -/

namespace TapeLang

inductive FileTree
  | file (bytes : ByteArray)
  | folder (children : List (String × FileTree))
  deriving Inhabited

namespace FileTree

def empty : FileTree :=
  folder []

/-- The place that the names lead to; the folders on the way here come last first. -/
def walk (node : FileTree) (above : List FileTree) : List String → Except ReadFailure FileTree
  | [] => .ok node
  | name :: rest =>
    match node with
    | file _ => .error .notFolder
    | folder children =>
      if name = "" ∨ name = "." then node.walk above rest
      else if name = ".." then
        match above with
        | [] => node.walk [] rest
        | parent :: above => parent.walk above rest
      else
        match children.lookup name with
        | none => .error .notFound
        | some child => child.walk (node :: above) rest

def pathNames (path : String) : List String :=
  (path.toList.splitOn '/').map String.ofList

def find (tree : FileTree) (path : String) : Except ReadFailure FileTree :=
  if path = "" then .error .notFound else tree.walk [] (pathNames path)

def fileContent (tree : FileTree) (path : String) : Except ReadFailure ByteArray :=
  match tree.find path with
  | .error f => .error f
  | .ok (file bytes) => .ok bytes
  | .ok (folder _) => .error .isFolder

def entry : FileTree → Entry
  | file bytes => .file (.ok bytes)
  | folder _ => .folder

def folderContent (tree : FileTree) (path : String) : Folder :=
  match tree.find path with
  | .error _ => .missing
  | .ok (file _) => .unreadable .notFolder
  | .ok (folder children) => .listed (children.map fun c => (c.1, c.2.entry))

def setChild (name : String) (child : FileTree) :
    List (String × FileTree) → List (String × FileTree)
  | [] => [(name, child)]
  | (n, old) :: rest => if n = name then (n, child) :: rest else (n, old) :: setChild name child rest

/-- Puts a leaf at the end of the names, making the folders that are missing. A folder that is there
already stays as it is. -/
def put (leaf : FileTree) : List String → FileTree → FileTree
  | [], old =>
    match leaf, old with
    | folder [], folder children => folder children
    | leaf, _ => leaf
  | name :: rest, file _ => folder [(name, put leaf rest empty)]
  | name :: rest, folder children =>
    let old := (children.lookup name).getD empty
    folder (setChild name (put leaf rest old) children)

end FileTree

end TapeLang
