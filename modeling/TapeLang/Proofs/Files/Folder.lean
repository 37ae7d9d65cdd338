import Mathlib.Data.List.Nodup
import TapeLang.Files.Load

/-! Folders. A file that is named like a program comes to a result of its own, and nothing else comes to any,
`mem_loadEntries`. The results of different files differ in their paths, so there is one way to sort them,
`mergeSort_loadEntries_eq`, in whatever order the folder lists its entries: programs by path, then faults
by message, `comprises_of_split`. An entry that cannot be read has an error of its own and no path, and leaves the
rest as they are, `loadFolder_opened`; errors of one message cannot be told apart, so all that is told of a
folder is what sorting by path and message alone would give, `map_shown_loadFolder`. -/

namespace TapeLang

/-- The text behind the last dot of the name, which is not its first character. -/
def HasExtension (name ext : String) : Prop :=
  '.' ∉ ext.toList ∧ ∃ stem : String, stem ≠ "" ∧ name = stem ++ "." ++ ext

theorem isProgramName_iff {name : String} : isProgramName name = true ↔ HasExtension name "ttl" := by
  constructor
  · intro h
    unfold isProgramName at h
    split at h
    · next c r hr =>
      rw [List.reverse_eq_iff] at hr
      refine ⟨by decide, String.ofList (r.reverse ++ [c]), ?_, ?_⟩
      · intro he
        have hnil := congrArg String.toList he
        simp at hnil
      · rw [← String.toList_inj, hr]
        simp
    · cases h
  · rintro ⟨_, stem, hne, rfl⟩
    have hstem : stem.toList.reverse ≠ [] := by simpa using hne
    obtain ⟨c, r, hr⟩ := List.exists_cons_of_ne_nil hstem
    have he : (stem ++ "." ++ "ttl").toList.reverse = 'l' :: 't' :: 't' :: '.' :: c :: r := by
      simp [hr]
    rw [isProgramName, he]
    rfl

theorem joinPath_inj {folder name other : String} (h : joinPath folder name = joinPath folder other) :
    name = other := by
  unfold joinPath at h
  split at h
  · exact (String.append_right_inj _).1 h
  · exact (String.append_right_inj _).1 h

/-- A file has a program exactly if its bytes are text and the text describes one. -/
theorem loadFile_eq_ok_iff {path : String} {content : Except ReadFailure ByteArray} {p : Program} :
    loadFile path content = .ok p ↔ ∃ bytes text, content = .ok bytes ∧
      String.fromUTF8? bytes = some text ∧ Program.parseFile text = .ok p := by
  cases content with
  | error f => exact ⟨nofun, nofun⟩
  | ok bytes =>
    simp only [Except.ok.injEq, exists_and_left, exists_eq_left']
    change ((decodeText bytes).mapError _).bind loadText = _ ↔ _
    rw [decodeText]
    cases String.fromUTF8? bytes with
    | none => exact ⟨nofun, nofun⟩
    | some text =>
      simp only [Option.some.injEq, exists_eq_left']
      change (Program.parseFile text).mapError Error.source = _ ↔ _
      cases Program.parseFile text with
      | error e => exact ⟨nofun, nofun⟩
      | ok q => exact ⟨fun h => congrArg _ (Except.ok.inj h), fun h => congrArg _ (Except.ok.inj h)⟩

namespace Loaded

def ofFault (f : String × Error) : Loaded :=
  .error (.skipped f.1 f.2)

def ofFile (path : String) (content : Except ReadFailure ByteArray) : Loaded :=
  match loadFile path content with
  | .ok p => .ok (path, p)
  | .error e => ofFault (path, e)

variable {path q : String} {content : Except ReadFailure ByteArray} {a b : Loaded}

theorem path_rank_ofFile (path : String) (content : Except ReadFailure ByteArray) :
    (ofFile path content).rank.path = path := by
  unfold ofFile
  split
  · rfl
  · rfl

theorem ofFile_eq_ok_iff {p : Program} :
    ofFile path content = .ok (q, p) ↔ q = path ∧ loadFile q content = .ok p := by
  unfold ofFile
  constructor
  · intro h
    split at h
    · next p' hp =>
      cases h
      exact ⟨rfl, hp⟩
    · cases h
  · rintro ⟨rfl, h⟩
    rw [h]

theorem ofFile_eq_fault_iff {e : Error} :
    ofFile path content = ofFault (q, e) ↔ q = path ∧ loadFile q content = .error e := by
  unfold ofFile
  constructor
  · intro h
    split at h
    · cases h
    · next e' he =>
      cases h
      exact ⟨rfl, he⟩
  · rintro ⟨rfl, h⟩
    rw [h]

theorem exists_fault_of_ofFile {e : Error} (h : ofFile path content = .error e) :
    ∃ f, .error e = ofFault f := by
  unfold ofFile at h
  split at h
  · cases h
  · next e' _ => exact ⟨(path, e'), h.symm⟩

section Order

theorem isLE_compare {s t : String} : (compare s t).isLE = true ↔ s ≤ t :=
  isLE_compareOfLessAndEq String.le_antisymm String.not_le String.le_total

theorem le_eq (a b : Loaded) :
    a.le b = ((compare a.rank.failed b.rank.failed).then
      ((compare a.rank.label b.rank.label).then (compare a.rank.path b.rank.path))).isLE := rfl

theorem path_le_of_le {a b : String × Program} (h : Loaded.le (.ok a) (.ok b) = true) : a.1 ≤ b.1 := by
  rw [le_eq] at h
  exact isLE_compare.1 (Ordering.isLE_left_of_isLE_then h)

theorem message_le_of_le {e f : Error} (h : Loaded.le (.error e) (.error f) = true) :
    e.message ≤ f.message := by
  rw [le_eq] at h
  exact isLE_compare.1 (Ordering.isLE_left_of_isLE_then h)

theorem not_error_le_ok (e : Error) (a : String × Program) : Loaded.le (.error e) (.ok a) = false := rfl

/-- Results of one rank have one path. -/
theorem path_eq_of_le (hab : a.le b = true) (hba : b.le a = true) : a.rank.path = b.rank.path := by
  have h : compare a.rank b.rank = .eq := Std.OrientedCmp.isLE_antisymm hab hba
  obtain ⟨_, h⟩ := Ordering.then_eq_eq.1 h
  obtain ⟨_, h⟩ := Ordering.then_eq_eq.1 h
  exact Std.LawfulEqOrd.eq_of_compare h

end Order

section Shown

/-- What can be told of a result: its program with its path, or the message of its error. -/
def shown (a : Loaded) : Except String (String × Program) :=
  a.mapError Error.message

/-- Programs stand before messages, programs by path, messages by their text. -/
def precedes : Except String (String × Program) → Except String (String × Program) → Bool
  | .ok a, .ok b => a.1 ≤ b.1
  | .ok _, .error _ => true
  | .error _, .ok _ => false
  | .error m, .error n => m ≤ n

theorem precedes_total (x y : Except String (String × Program)) :
    (precedes x y || precedes y x) = true := by
  cases x with
  | ok a =>
    cases y with
    | ok b => simpa [precedes] using String.le_total a.1 b.1
    | error n => rfl
  | error m =>
    cases y with
    | ok b => rfl
    | error n => simpa [precedes] using String.le_total m n

theorem precedes_trans (x y z : Except String (String × Program)) (hxy : precedes x y = true)
    (hyz : precedes y z = true) : precedes x z = true := by
  cases x <;> cases y <;> cases z <;> simp only [precedes, decide_eq_true_eq, reduceCtorEq] at *
  · exact String.le_trans hxy hyz
  · exact String.le_trans hxy hyz

theorem precedes_of_le (h : a.le b = true) : precedes a.shown b.shown = true := by
  cases a with
  | ok a =>
    cases b with
    | ok b => exact decide_eq_true (path_le_of_le h)
    | error f => rfl
  | error e =>
    cases b with
    | ok b => rw [not_error_le_ok] at h; cases h
    | error f => exact decide_eq_true (message_le_of_le h)

end Shown

theorem pairwise_mergeSort (l : List Loaded) :
    (l.mergeSort Loaded.le).Pairwise fun a b => a.le b = true := by
  apply List.pairwise_mergeSort
  · exact fun a b c => le_trans
  · exact le_total

/-- In order, programs stand before faults. -/
theorem exists_split {l : List Loaded} (hl : l.Pairwise fun a b => a.le b = true)
    (hfault : ∀ e, .error e ∈ l → ∃ f, .error e = ofFault f) :
    ∃ (programs : List (String × Program)) (faults : List (String × Error)),
      l = programs.map .ok ++ faults.map ofFault := by
  induction l with
  | nil => exact ⟨[], [], rfl⟩
  | cons a l ih =>
    obtain ⟨ha, hl⟩ := List.pairwise_cons.1 hl
    obtain ⟨programs, faults, rfl⟩ := ih hl fun e he => hfault e (List.mem_cons_of_mem _ he)
    cases a with
    | ok a => exact ⟨a :: programs, faults, rfl⟩
    | error e =>
      obtain ⟨f, hf⟩ := hfault e List.mem_cons_self
      cases programs with
      | nil => exact ⟨[], f :: faults, by rw [hf]; rfl⟩
      | cons p programs =>
        have hp := ha (.ok p) (by simp)
        rw [not_error_le_ok] at hp
        cases hp

end Loaded

section Folder

variable {path name : String} {entries listing : List (String × Entry)} {a b : Loaded}

theorem loadEntry_eq_some_iff {entry : Entry} :
    loadEntry path (name, entry) = some a ↔ ∃ content, entry = .file content ∧
      HasExtension name "ttl" ∧ Loaded.ofFile (joinPath path name) content = a := by
  rw [← isProgramName_iff]
  cases entry with
  | folder => exact ⟨nofun, nofun⟩
  | file content =>
    have hfile : loadEntry path (name, .file content) =
        if isProgramName name then some (Loaded.ofFile (joinPath path name) content) else none := by
      simp only [loadEntry, Loaded.ofFile]
      cases loadFile (joinPath path name) content with
      | ok p => rfl
      | error e => rfl
    simp only [hfile, Option.ite_none_right_eq_some, Option.some.injEq, Entry.file.injEq,
      exists_eq_left']

def loadEntries (path : String) (entries : List (String × Entry)) : List Loaded :=
  entries.filterMap (loadEntry path)

theorem loadFolder_of_listed (path : String) (entries : List (String × Entry)) :
    loadFolder path (.listed entries) = (loadEntries path entries).mergeSort Loaded.le := by
  rw [Folder.listed, loadFolder, List.filterMap_map]
  rfl

theorem mem_loadEntries : a ∈ loadEntries path entries ↔
    ∃ name content, (name, .file content) ∈ entries ∧ HasExtension name "ttl" ∧
      Loaded.ofFile (joinPath path name) content = a := by
  simp only [loadEntries, List.mem_filterMap, Prod.exists, loadEntry_eq_some_iff]
  constructor
  · rintro ⟨name, _, hm, content, rfl, h⟩
    exact ⟨name, content, hm, h⟩
  · rintro ⟨name, content, hm, h⟩
    exact ⟨name, _, hm, content, rfl, h⟩

theorem exists_split_loadEntries (path : String) (entries : List (String × Entry)) :
    ∃ (programs : List (String × Program)) (faults : List (String × Error)),
      (loadEntries path entries).mergeSort Loaded.le =
        programs.map .ok ++ faults.map Loaded.ofFault := by
  refine Loaded.exists_split (Loaded.pairwise_mergeSort _) fun e he => ?_
  obtain ⟨_, _, _, _, hf⟩ := mem_loadEntries.1 (List.mem_mergeSort.1 he)
  exact Loaded.exists_fault_of_ofFile hf

section Nodup

variable (h : (entries.map Prod.fst).Nodup)

include h

/-- Files of different names have results of different paths. -/
theorem nodup_paths : ((loadEntries path entries).map (·.rank.path)).Nodup := by
  have hnames : entries.Pairwise fun e f => e.1 ≠ f.1 := List.pairwise_map.1 h
  refine List.pairwise_map.2 (hnames.filterMap (loadEntry path) ?_)
  rintro ⟨name, entry⟩ ⟨name', entry'⟩ hne a ha a' ha' hpath
  obtain ⟨content, _, _, rfl⟩ := loadEntry_eq_some_iff.1 ha
  obtain ⟨content', _, _, rfl⟩ := loadEntry_eq_some_iff.1 ha'
  rw [Loaded.path_rank_ofFile, Loaded.path_rank_ofFile] at hpath
  exact hne (joinPath_inj hpath)

/-- Once sorted, the results do not depend on the order of the entries. -/
theorem mergeSort_loadEntries_eq (hl : listing.Perm entries) :
    (loadEntries path listing).mergeSort Loaded.le =
      (loadEntries path entries).mergeSort Loaded.le := by
  have hperm : (loadEntries path listing).Perm (loadEntries path entries) :=
    hl.filterMap (loadEntry path)
  refine List.Perm.eq_of_pairwise ?_ (Loaded.pairwise_mergeSort _) (Loaded.pairwise_mergeSort _)
    (((List.mergeSort_perm _ _).trans hperm).trans (List.mergeSort_perm _ _).symm)
  intro a b ha hb hab hba
  have ha : a ∈ loadEntries path entries := hperm.mem_iff.1 (List.mem_mergeSort.1 ha)
  have hb : b ∈ loadEntries path entries := List.mem_mergeSort.1 hb
  exact List.inj_on_of_nodup_map (nodup_paths h) ha hb (Loaded.path_eq_of_le hab hba)

end Nodup

/-- The programs of a folder with their paths, and the files that are named like programs and are none, with what
is wrong with each. -/
structure Comprises (path : String) (entries : List (String × Entry))
    (programs : List (String × Program)) (faults : List (String × Error)) : Prop where
  once : ∀ (name : String) (content : Except ReadFailure ByteArray), (name, .file content) ∈ entries →
    HasExtension name "ttl" →
      (programs.map Prod.fst ++ faults.map Prod.fst).count (joinPath path name) = 1
  mem_programs : ∀ (q : String) (p : Program), (q, p) ∈ programs ↔
    ∃ name content, (name, .file content) ∈ entries ∧ HasExtension name "ttl" ∧
      q = joinPath path name ∧ loadFile q content = .ok p
  mem_faults : ∀ (q : String) (e : Error), (q, e) ∈ faults ↔
    ∃ name content, (name, .file content) ∈ entries ∧ HasExtension name "ttl" ∧
      q = joinPath path name ∧ loadFile q content = .error e
  by_path : programs.Pairwise fun a b => a.1 < b.1
  by_message : faults.Pairwise fun a b =>
    (Error.skipped a.1 a.2).message ≤ (Error.skipped b.1 b.2).message

theorem comprises_of_split {programs : List (String × Program)} {faults : List (String × Error)}
    (h : (entries.map Prod.fst).Nodup)
    (hsplit : (loadEntries path entries).mergeSort Loaded.le =
      programs.map .ok ++ faults.map Loaded.ofFault) : Comprises path entries programs faults := by
  have hperm := List.mergeSort_perm (loadEntries path entries) Loaded.le
  have hsorted := Loaded.pairwise_mergeSort (loadEntries path entries)
  rw [hsplit] at hperm hsorted
  have hmem (a : Loaded) :
      a ∈ programs.map .ok ++ faults.map Loaded.ofFault ↔ a ∈ loadEntries path entries := hperm.mem_iff
  have hmap : (programs.map .ok ++ faults.map Loaded.ofFault : List Loaded).map (·.rank.path) =
      programs.map Prod.fst ++ faults.map Prod.fst := by
    rw [List.map_append, List.map_map, List.map_map]
    rfl
  have hpaths : (programs.map Prod.fst ++ faults.map Prod.fst).Nodup := by
    rw [← hmap, (hperm.map _).nodup_iff]
    exact nodup_paths h
  obtain ⟨hprograms, hfaults, _⟩ := List.pairwise_append.1 hsorted
  refine ⟨?_, ?_, ?_, ?_, ?_⟩
  · intro name content hm he
    apply List.count_eq_one_of_mem hpaths
    rw [← hmap, ← Loaded.path_rank_ofFile (joinPath path name) content]
    exact List.mem_map_of_mem ((hmem _).2 (mem_loadEntries.2 ⟨name, content, hm, he, rfl⟩))
  · intro q p
    have hq := (hmem (.ok (q, p))).trans mem_loadEntries
    simp only [Loaded.ofFile_eq_ok_iff] at hq
    rw [← hq]
    simp [Loaded.ofFault]
  · intro q e
    have hq := (hmem (Loaded.ofFault (q, e))).trans mem_loadEntries
    simp only [Loaded.ofFile_eq_fault_iff] at hq
    rw [← hq]
    simp [Loaded.ofFault]
  · have hne : programs.Pairwise fun a b => a.1 ≠ b.1 :=
      List.pairwise_map.1 (List.nodup_append.1 hpaths).1
    refine ((List.pairwise_map.1 hprograms).and hne).imp ?_
    rintro a b ⟨hle, hne⟩
    exact Std.lt_of_le_of_ne (Loaded.path_le_of_le hle) hne
  · exact (List.pairwise_map.1 hfaults).imp Loaded.message_le_of_le

/-- A folder whose entries have different names is loaded alike in whatever order it lists them. Each file that is
named like a program comes to one result, with the program that it has alone or with its own error, and
nothing else comes to any; programs stand first, by path, then faults, by message. -/
theorem loadFolder_listed (path : String) (h : (entries.map Prod.fst).Nodup) :
    (∃ programs faults, Comprises path entries programs faults ∧
      ∀ listing, listing.Perm entries →
        loadFolder path (.listed listing) =
          programs.map .ok ++ faults.map fun f => .error (.skipped f.1 f.2)) ∧
      (∀ (q : String) (content : Except ReadFailure ByteArray) (p : Program),
        loadFile q content = .ok p ↔ ∃ bytes text, content = .ok bytes ∧
          String.fromUTF8? bytes = some text ∧ Program.parseFile text = .ok p) ∧
      ∀ (q : String) (e : Error), (Error.skipped q e).message =
        "File error: Failed to load program from " ++ q ++ ": " ++ e.message := by
  refine ⟨?_, fun q content p => loadFile_eq_ok_iff, fun q e => rfl⟩
  obtain ⟨programs, faults, hsplit⟩ := exists_split_loadEntries path entries
  refine ⟨programs, faults, comprises_of_split h hsplit, fun listing hl => ?_⟩
  rw [loadFolder_of_listed]
  exact (mergeSort_loadEntries_eq h hl).trans hsplit

/-- Children of every kind: a program, a malformed one, bytes that are no text, a name that is all extension, a
folder, and another extension. -/
def mixedEntries : List (String × Entry) := [
  ("c.ttl", .file (.ok ⟨#[0xff]⟩)),
  ("e.ttl", .folder),
  ("b.c.ttl", .file (.ok "S\n".toUTF8)),
  (".ttl", .file (.ok "S".toUTF8)),
  ("a.ttl", .file (.ok "a,b".toUTF8)),
  ("b.ttl.txt", .file (.error .notFound))]

theorem loadFolder_listed_mixed :
    (mixedEntries.map Prod.fst).Nodup ∧ ∃ programs faults,
      Comprises "d" mixedEntries programs faults ∧
        loadFolder "d" (.listed mixedEntries.reverse) =
          programs.map .ok ++ faults.map (fun f => .error (.skipped f.1 f.2)) ∧
        (loadFolder "d" (.listed mixedEntries.reverse)).length = 3 ∧
        ("d/b.c.ttl", { state := "S" }) ∈ programs ∧
        ("d/a.ttl", .source ⟨1, .ambiguous "a,b"⟩) ∈ faults ∧
        ("d/c.ttl", .unreadableFile "d/c.ttl" .notText) ∈ faults := by
  have h : (mixedEntries.map Prod.fst).Nodup := by decide
  have hlength : (loadFolder "d" (.listed mixedEntries.reverse)).length = 3 := by
    rw [loadFolder_of_listed, List.length_mergeSort]
    decide
  obtain ⟨⟨programs, faults, hc, hload⟩, _⟩ := loadFolder_listed "d" h
  refine ⟨h, programs, faults, hc, hload _ (List.reverse_perm _), hlength, ?_, ?_, ?_⟩
  · have hm : ("b.c.ttl", Entry.file (.ok "S\n".toUTF8)) ∈ mixedEntries := by simp [mixedEntries]
    exact (hc.mem_programs _ _).2 ⟨_, _, hm, isProgramName_iff.1 (by decide), by decide, by decide⟩
  · have hm : ("a.ttl", Entry.file (.ok "a,b".toUTF8)) ∈ mixedEntries := by simp [mixedEntries]
    exact (hc.mem_faults _ _).2 ⟨_, _, hm, isProgramName_iff.1 (by decide), by decide, by decide⟩
  · have hm : ("c.ttl", Entry.file (.ok ⟨#[0xff]⟩)) ∈ mixedEntries := by simp [mixedEntries]
    exact (hc.mem_faults _ _).2 ⟨_, _, hm, isProgramName_iff.1 (by decide), by decide, by decide⟩

section Opened

variable {items opening : List (Except ReadFailure (String × Entry))}

def readEntries (items : List (Except ReadFailure (String × Entry))) : List (String × Entry) :=
  items.filterMap Except.toOption

def entryFaults (items : List (Except ReadFailure (String × Entry))) : List Loaded :=
  items.filterMap fun
    | .ok _ => none
    | .error f => some (.error (.unreadableEntry f))

theorem ok_notMem_entryFaults {a : String × Program} : .ok a ∉ entryFaults items := by
  intro h
  obtain ⟨item, _, h⟩ := List.mem_filterMap.1 h
  cases item <;> cases h

theorem perm_loadItems (path : String) (items : List (Except ReadFailure (String × Entry))) :
    (items.filterMap (loadItem path)).Perm
      (loadEntries path (readEntries items) ++ entryFaults items) := by
  induction items with
  | nil => exact .refl _
  | cons item items ih =>
    cases item with
    | error f => exact (ih.cons _).trans List.perm_middle.symm
    | ok entry =>
      have hread : readEntries (.ok entry :: items) = entry :: readEntries items := rfl
      have hfaults : entryFaults (.ok entry :: items) = entryFaults items := rfl
      rw [List.filterMap_cons, hread, hfaults, loadEntries, List.filterMap_cons, loadItem]
      cases loadEntry path entry with
      | none => exact ih
      | some a => exact ih.cons a

/-- An entry that cannot be read costs its own error and nothing else. -/
theorem loadFolder_opened (path : String) (items : List (Except ReadFailure (String × Entry))) :
    (loadFolder path (.opened items)).Perm
      (loadFolder path (.listed (readEntries items)) ++ entryFaults items) := by
  rw [loadFolder_of_listed]
  refine (List.mergeSort_perm _ _).trans ((perm_loadItems path items).trans ?_)
  exact (List.mergeSort_perm _ _).symm.append_right _

theorem eq_of_path_eq {a b : String × Program} (h : ((readEntries items).map Prod.fst).Nodup)
    (ha : .ok a ∈ items.filterMap (loadItem path)) (hb : .ok b ∈ items.filterMap (loadItem path))
    (hpath : a.1 = b.1) : a = b := by
  have hmem (c : String × Program) (hc : .ok c ∈ items.filterMap (loadItem path)) :
      .ok c ∈ loadEntries path (readEntries items) :=
    (List.mem_append.1 ((perm_loadItems path items).mem_iff.1 hc)).resolve_right ok_notMem_entryFaults
  exact Except.ok.inj (List.inj_on_of_nodup_map (nodup_paths h) (hmem a ha) (hmem b hb) hpath)

/-- What is told of a folder does not depend on the order in which it lists its entries, nor on the order in which
errors of one message are put: it is sorted by path and message. -/
theorem map_shown_loadFolder (path : String) (h : ((readEntries items).map Prod.fst).Nodup)
    (hl : opening.Perm items) :
    (loadFolder path (.opened opening)).map Loaded.shown =
      ((items.filterMap (loadItem path)).map Loaded.shown).mergeSort Loaded.precedes := by
  have hperm : ((loadFolder path (.opened opening)).map Loaded.shown).Perm
      ((items.filterMap (loadItem path)).map Loaded.shown) :=
    ((List.mergeSort_perm _ _).trans (hl.filterMap _)).map _
  have hsorted : ((loadFolder path (.opened opening)).map Loaded.shown).Pairwise
      fun x y => Loaded.precedes x y = true :=
    List.pairwise_map.2 ((Loaded.pairwise_mergeSort _).imp Loaded.precedes_of_le)
  refine List.Perm.eq_of_pairwise ?_ hsorted
    (List.pairwise_mergeSort Loaded.precedes_trans Loaded.precedes_total _)
    (hperm.trans (List.mergeSort_perm _ _).symm)
  intro x y hx hy hxy hyx
  obtain ⟨a, ha, rfl⟩ := List.mem_map.1 (hperm.mem_iff.1 hx)
  obtain ⟨b, hb, rfl⟩ := List.mem_map.1 (List.mem_mergeSort.1 hy)
  cases a with
  | ok a =>
    cases b with
    | ok b =>
      have hpath := String.le_antisymm (of_decide_eq_true hxy) (of_decide_eq_true hyx)
      rw [eq_of_path_eq h ha hb hpath]
    | error f => cases hyx
  | error e =>
    cases b with
    | ok b => cases hxy
    | error f =>
      have hmessage := String.le_antisymm (of_decide_eq_true hxy) (of_decide_eq_true hyx)
      exact congrArg Except.error hmessage

end Opened

end Folder

end TapeLang
