import TapeLang.Json.Token

/-! Reading a JSON text. A reader keeps the arrays and objects that are still open and what may come
next; each token is one move, and a text has a value if its tokens lead from a bare reader to a
finished one. -/

namespace TapeLang.Json

/-- An array or object that is still open, its latest part first. -/
inductive Frame
  | array (items : List Json)
  | object (fields : List (Option String × Json))
  /-- An object whose latest name waits for its value. -/
  | field (name : Option String) (fields : List (Option String × Json))

inductive Expecting
  | value
  | itemOrClose
  | nameOrClose
  | name
  | colon
  | commaOrClose
  | nothing (v : Json)

structure Reader where
  frames : List Frame
  expecting : Expecting

namespace Reader

def start : Reader :=
  ⟨[], .value⟩

/-- The reader with a whole value handed to the innermost open frame. -/
def give (v : Json) : List Frame → Reader
  | [] => ⟨[], .nothing v⟩
  | .array items :: frames => ⟨.array (v :: items) :: frames, .commaOrClose⟩
  | .field name fields :: frames => ⟨.object ((name, v) :: fields) :: frames, .commaOrClose⟩
  | .object fields :: frames => ⟨.object fields :: frames, .commaOrClose⟩

def startValue? (frames : List Frame) : Token → Option Reader
  | .openArray => some ⟨.array [] :: frames, .itemOrClose⟩
  | .openObject => some ⟨.object [] :: frames, .nameOrClose⟩
  | .string text => some (give (.string text) frames)
  | .scalar v => some (give v frames)
  | _ => none

def afterPart? : Token → List Frame → Option Reader
  | .comma, .array items :: frames => some ⟨.array items :: frames, .value⟩
  | .comma, .object fields :: frames => some ⟨.object fields :: frames, .name⟩
  | .closeArray, .array items :: frames => some (give (.array items.reverse) frames)
  | .closeObject, .object fields :: frames => some (give (.object fields.reverse) frames)
  | _, _ => none

def startField? : Token → List Frame → Option Reader
  | .string name, .object fields :: frames => some ⟨.field name fields :: frames, .colon⟩
  | _, _ => none

def move? (r : Reader) (t : Token) : Option Reader :=
  match r.expecting, t with
  | .value, t => startValue? r.frames t
  | .itemOrClose, .closeArray => afterPart? .closeArray r.frames
  | .itemOrClose, t => startValue? r.frames t
  | .nameOrClose, .closeObject => afterPart? .closeObject r.frames
  | .nameOrClose, t => startField? t r.frames
  | .name, t => startField? t r.frames
  | .colon, .colon => some ⟨r.frames, .value⟩
  | .commaOrClose, t => afterPart? t r.frames
  | _, _ => none

end Reader

def ofTokens? (tokens : List Token) : Option Json := do
  let r ← tokens.foldlM Reader.move? Reader.start
  match r.expecting with
  | .nothing v => some v
  | _ => none

def read? (text : String) : Option Json :=
  (tokens? text.toList).bind ofTokens?

def decode? {α : Type} (ofJson? : Json → Option α) (text : String) : Option α :=
  (read? text).bind ofJson?

end TapeLang.Json
