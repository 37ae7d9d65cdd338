import TapeLang.Catalogue
import TapeLang.Error

/-! Loading programs. What the file system says is given; what becomes of it is decided here. Of a folder,
every file with the extension of programs is loaded on its own, and the order in which the folder
lists them leaves no trace: programs come first, by name, then errors, by message. -/

namespace TapeLang

def decodeText (bytes : ByteArray) : Except ReadFailure String :=
  match String.fromUTF8? bytes with
  | some text => .ok text
  | none => .error .notText

def loadText (text : String) : Except Error Program :=
  (Program.parseFile text).mapError .source

def fileText (path : String) (content : Except ReadFailure ByteArray) : Except Error String :=
  (content.bind decodeText).mapError (.unreadableFile path)

def loadFile (path : String) (content : Except ReadFailure ByteArray) : Except Error Program :=
  (fileText path content).bind loadText

def inputText (bytes : ByteArray) : Except Error String :=
  (decodeText bytes).mapError .unreadableInput

def loadInput (bytes : ByteArray) : Except Error Program :=
  (inputText bytes).bind loadText

def loadBundled (name : String) : Except Error Program :=
  match Bundled.find? name with
  | some b => b.program?.mapError .source
  | none => .error (.unknownProgram name)

inductive Entry
  | file (content : Except ReadFailure ByteArray)
  | folder

inductive Folder
  | missing
  | unreadable (f : ReadFailure)
  /-- What reading each of its entries gave. One that cannot be read has no name. -/
  | opened (items : List (Except ReadFailure (String × Entry)))

/-- A folder whose entries could all be read. -/
def Folder.listed (entries : List (String × Entry)) : Folder :=
  opened (entries.map .ok)

/-- The extension is `ttl`: a name that is a dot and the extension has none. -/
def isProgramName (name : String) : Bool :=
  match name.toList.reverse with
  | 'l' :: 't' :: 't' :: '.' :: _ :: _ => true
  | _ => false

def joinPath (folder name : String) : String :=
  if folder = "" ∨ folder.toList.getLast? = some '/' then folder ++ name
  else folder ++ "/" ++ name

/-- A program of a folder with its path, or why a file has none. -/
abbrev Loaded := Except Error (String × Program)

/-- What an entry contributes: nothing, unless it is a file named like a program. -/
def loadEntry (folder : String) (entry : String × Entry) : Option Loaded :=
  match entry with
  | (_, .folder) => none
  | (name, .file content) =>
    if isProgramName name then
      let path := joinPath folder name
      match loadFile path content with
      | .ok p => some (.ok (path, p))
      | .error e => some (.error (.skipped path e))
    else none

def loadItem (folder : String) : Except ReadFailure (String × Entry) → Option Loaded
  | .error f => some (.error (.unreadableEntry f))
  | .ok entry => loadEntry folder entry

/-- Where a file's result stands among those of its folder: programs before errors, programs by path,
errors by message. Errors of one message look alike; the path puts them in some order all the same. -/
structure Loaded.Rank where
  failed : Nat
  label : String
  path : String
  deriving DecidableEq, Repr

def Loaded.rank : Loaded → Loaded.Rank
  | .ok a => ⟨0, a.1, a.1⟩
  | .error e => ⟨1, e.message, e.path⟩

instance : Ord Loaded.Rank :=
  ⟨compareLex (compareOn Loaded.Rank.failed)
    (compareLex (compareOn Loaded.Rank.label) (compareOn Loaded.Rank.path))⟩

instance : Std.TransOrd Loaded.Rank :=
  inferInstanceAs (Std.TransCmp (compareLex (compareOn Loaded.Rank.failed)
    (compareLex (compareOn Loaded.Rank.label) (compareOn Loaded.Rank.path))))

def Loaded.le (a b : Loaded) : Bool :=
  (compare a.rank b.rank).isLE

theorem Loaded.le_total (a b : Loaded) : (a.le b || b.le a) = true := by
  have h : compare a.rank b.rank = (compare b.rank a.rank).swap := Std.OrientedCmp.eq_swap
  simp only [Loaded.le, h]
  cases compare b.rank a.rank <;> rfl

theorem Loaded.le_trans {a b c : Loaded} (hab : a.le b = true) (hbc : b.le c = true) :
    a.le c = true :=
  Std.TransCmp.isLE_trans hab hbc

def loadFolder (path : String) : Folder → List Loaded
  | .missing => [.error (.missingFolder path)]
  | .unreadable f => [.error (.unreadableFolder path f)]
  | .opened items => (items.filterMap (loadItem path)).mergeSort Loaded.le

end TapeLang
