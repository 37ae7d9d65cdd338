import TapeLang.Command.Session
import TapeLang.Proofs.Source.RoundTrip

/-! Programs that a command has got. They were read from a text, wherever they come from,
`Origin.exists_parse_of_load`, and a text is read alike from a file and from the standard input,
`Origin.load_of_gives`. -/

namespace TapeLang

theorem exists_parse_of_loadText {content : String} {p : Program} (h : loadText content = .ok p) :
    ∃ source, Program.parse source = .ok p := by
  unfold loadText at h
  cases hc : Program.parseFile content with
  | error e =>
    rw [hc] at h
    cases h
  | ok q =>
    rw [hc] at h
    cases h
    exact ⟨_, hc⟩

namespace Origin

variable {w : Surroundings} {p : Program}

theorem load_file (path : String) :
    ((file path).load w).2 = loadFile path (w.fileContent path) := by
  simp only [load, loadFile]
  cases fileText path (w.fileContent path) <;> rfl

theorem load_input {bytes : ByteArray} (hw : w.input = some bytes) :
    (input.load w).2 = loadInput bytes := by
  simp only [load, hw, loadInput]
  cases inputText bytes <;> rfl

theorem exists_parse_of_load {origin : Origin} (h : (origin.load w).2 = .ok p) :
    ∃ source, Program.parse source = .ok p := by
  rcases origin with name | path | _
  · change loadBundled name = _ at h
    unfold loadBundled at h
    split at h
    · next b _ => exact @exists_parse_of_loadText b.text p h
    · cases h
  · rw [load_file, loadFile] at h
    obtain ⟨text, _, ht⟩ := bind_eq_ok.1 h
    exact exists_parse_of_loadText ht
  · rcases hw : w.input with _ | bytes
    · simp only [load, hw] at h
      cases h
    · rw [load_input hw, loadInput] at h
      obtain ⟨text, _, ht⟩ := bind_eq_ok.1 h
      exact exists_parse_of_loadText ht

/-- Where a program comes from there is the text. -/
def Gives (w : Surroundings) (text : String) : Origin → Prop
  | bundled _ => False
  | file path => w.fileContent path = .ok text.toUTF8
  | input => w.input = some text.toUTF8

theorem load_of_gives {origin : Origin} {text : String} (h : origin.Gives w text) :
    (origin.load w).2 = (Program.parseFile text).mapError .source := by
  rcases origin with name | path | _
  · cases h
  · rw [load_file, h, loadFile, fileText, Except.bind, decodeText_toUTF8]
    rfl
  · rw [load_input h, loadInput_toUTF8]

end Origin

theorem Command.withProgram_of_load {origin : Origin} {v : Nat} {w : Surroundings} {p : Program}
    (hp : (origin.load w).2 = .ok p) (go : Program → Turn) :
    withProgram origin v w go = (go p).after (Output.ofNotices v (origin.load w).1) := by
  simp only [withProgram, hp]

end TapeLang
