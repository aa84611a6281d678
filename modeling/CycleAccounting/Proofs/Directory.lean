import CycleAccounting.Directory
import CycleAccounting.Proofs.Catalog
import CycleAccounting.Proofs.Reconciliation
import Mathlib.Tactic.Common

/-!
# Files of a directory

The entry of a folder has a slash at the end of its path, and the path of a file ends in a name,
which has none (`path_ne_folder`).  So the folders stay the same while files are written, and a path
that leads to a name keeps leading there (`SameFolders.locate`).

`Lacks` says that a file can be made at a path, and `Holds` that there is one with some text; a
path `Takes` text in either case.  Appending there `Extends` the one file and no other, and changes
nothing elsewhere (`extends_of_append`).  So it turns a lack into a file (`append_of_lacks`) and
puts text behind text (`append_of_holds`), hence any number of texts appended one after the other
are read back as one (**`run_appends_of_lacks`**).
-/

namespace CycleAccounting.Directory

/-! ## Following a path -/

/-- The parts of a path between its slashes. -/
def parts (path : String) : List String := (Text.pieces '/' path.toList).map String.ofList

def steps (path : String) : List String := (parts path).filter (· ≠ "")

def start (path : String) : Folder :=
  if (parts path).head? = some "" then .root else .above 0

/-- A text that is a path: neither empty nor too long, and without the null character. -/
def IsPath (path : String) : Prop :=
  '\x00' ∉ path.toList ∧ path ≠ "" ∧ path.utf8ByteSize ≤ longestPath

variable {d : Directory} {path : String}

lemma isPath_of_locate {place : Place} (h : d.locate path = .ok place) : IsPath path := by
  have hnull : '\x00' ∉ path.toList := by
    intro hnull
    rw [locate, if_pos (List.contains_iff_mem.2 hnull)] at h
    cases h
  have hempty : path ≠ "" := by
    rintro rfl
    cases h
  refine ⟨hnull, hempty, ?_⟩
  by_contra hlong
  rw [locate, if_neg (mt List.contains_iff_mem.1 hnull)] at h
  simp only [if_neg hempty, if_pos (not_le.1 hlong)] at h
  cases h

/-- The steps of a path but the last lead to a folder, and the last one is taken there. -/
lemma locate_eq (h : IsPath path) : d.locate path = (match (steps path).getLast? with
    | none => .ok .folder
    | some last => do
      let f ← (steps path).dropLast.foldlM d.enter (start path)
      if last = "." || last = ".." then return .folder
      else return .named f last ((parts path).getLast? = some "")) := by
  obtain ⟨hnull, hempty, hlong⟩ := h
  simp only [locate, List.contains_iff_mem, hnull, hempty, hlong.not_gt, if_false]
  rfl

/-- **Where a path leads to a name**: to its last step, in the folder that the others lead to. -/
lemma locate_eq_named_iff {f : Folder} {name : String} {slash : Bool} :
    d.locate path = .ok (.named f name slash)
      ↔ IsPath path ∧ (steps path).getLast? = some name ∧ name ≠ "." ∧ name ≠ ".."
        ∧ slash = decide ((parts path).getLast? = some "")
        ∧ (steps path).dropLast.foldlM d.enter (start path) = .ok f := by
  constructor
  · intro h
    have hpath := isPath_of_locate h
    rw [locate_eq hpath] at h
    split at h
    · cases h
    · next last hlast =>
        obtain ⟨g, hway, h⟩ := bind_eq_ok.1 h
        split_ifs at h with hdots
        · cases h
        · cases h
          simp only [Bool.or_eq_true, decide_eq_true_eq, not_or] at hdots
          exact ⟨hpath, hlast, hdots.1, hdots.2, rfl, hway⟩
  · rintro ⟨hpath, hlast, hself, hparent, rfl, hway⟩
    have hdots : ¬ (decide (name = ".") || decide (name = "..")) = true := by
      simp [hself, hparent]
    rw [locate_eq hpath, hlast]
    exact bind_eq_ok.2 ⟨f, hway, if_neg hdots⟩

/-- A file in a folder below one of the system's. -/
example : (⟨Catalog.empty.insert "/tmp/x/" .empty, 1⟩ : Directory).locate "/tmp/x/stacks.csv"
    = .ok (.named (.inside (.inside .root "tmp") "x") "stacks.csv" false) := rfl

/-- A text that a step of a path can be: some characters, none of them a slash. -/
def IsName (name : String) : Prop := name ≠ "" ∧ '/' ∉ name.toList

lemma isName_of_mem_steps {name : String} (h : name ∈ steps path) : IsName name := by
  rw [steps, List.mem_filter, decide_eq_true_eq] at h
  obtain ⟨hpart, hne⟩ := h
  obtain ⟨piece, hpiece, rfl⟩ := List.mem_map.1 hpart
  rw [IsName, String.toList_ofList]
  exact ⟨hne, Text.not_mem_of_mem_pieces hpiece⟩

lemma isName_of_locate {f : Folder} {name : String} {slash : Bool}
    (h : d.locate path = .ok (.named f name slash)) : IsName name := by
  obtain ⟨-, hlast, -⟩ := locate_eq_named_iff.1 h
  exact isName_of_mem_steps (List.mem_of_getLast? hlast)

/-! ## Folders stay -/

/-- The path of a name in a folder is not that of a folder. -/
lemma path_ne_folder {name : String} (h : IsName name) (f : Folder) (folder : String) :
    f.path name ≠ folder ++ "/" := by
  have hlast (front : String) : front ++ name ≠ folder ++ "/" := by
    intro heq
    have hname : name.toList.getLast? ≠ none := by
      simpa [List.getLast?_eq_none_iff, String.toList_eq_nil_iff] using h.1
    have hslash := congrArg (fun s : String => s.toList.getLast?) heq
    simp only [String.toList_append, List.getLast?_append] at hslash
    cases hend : name.toList.getLast? with
    | none => exact hname hend
    | some c =>
        rw [hend] at hslash
        cases hslash
        exact h.2 (List.mem_of_getLast? hend)
  cases f with
  | above levels => exact hlast _
  | root => exact hlast "/"
  | inside outer inner => exact hlast (outer.path inner ++ "/")

/-- A directory has the folders that another one has. -/
structure SameFolders (d d' : Directory) : Prop where
  between_eq : d'.between = d.between
  hasFolder_eq : ∀ f name, d'.hasFolder f name = d.hasFolder f name

lemma sameFolders_insert {name : String} (h : IsName name) (f : Folder) (content : ByteArray) :
    d.SameFolders { d with files := d.files.insert (f.path name) content } where
  between_eq := rfl
  hasFolder_eq g other := by
    rw [hasFolder, hasFolder, Catalog.contains_insert,
      decide_eq_false (path_ne_folder h f _).symm, Bool.false_or]

lemma lookup_eq_folder_iff {f g : Folder} {name : String} :
    d.lookup f name = .ok (.folder g)
      ↔ name.utf8ByteSize ≤ longestName ∧ d.hasFolder f name = true ∧ g = .inside f name := by
  rw [lookup]
  split_ifs with hlong hfolder
  · simp [hlong]
  · rw [Except.ok.injEq, Entry.folder.injEq, eq_comm]
    exact ⟨fun h => ⟨not_lt.1 hlong, hfolder, h⟩, fun h => h.2.2⟩
  · refine iff_of_false ?_ fun h => hfolder h.2.1
    split <;> exact nofun

namespace SameFolders

variable {d' : Directory} (hsame : d.SameFolders d')
include hsame

lemma enter {f g : Folder} {step : String} (h : d.enter f step = .ok g) :
    d'.enter f step = .ok g := by
  rw [Directory.enter] at h ⊢
  split_ifs at h ⊢
  · exact h
  · rw [hsame.between_eq]
    exact h
  · have hfolder : d.lookup f step = .ok (.folder g) := by
      split at h <;> cases h
      assumption
    rw [lookup_eq_folder_iff, ← hsame.hasFolder_eq] at hfolder
    rw [lookup_eq_folder_iff.2 hfolder]

lemma foldlM_enter {names : List String} {f g : Folder} (h : names.foldlM d.enter f = .ok g) :
    names.foldlM d'.enter f = .ok g := by
  induction names generalizing f with
  | nil => exact h
  | cons name rest ih =>
      rw [List.foldlM_cons] at h ⊢
      obtain ⟨inner, hstep, hrest⟩ := bind_eq_ok.1 h
      exact bind_eq_ok.2 ⟨inner, hsame.enter hstep, ih hrest⟩

/-- **A path that leads to a name leads there as long as the folders stay.** -/
theorem locate {f : Folder} {name : String} {slash : Bool}
    (h : d.locate path = .ok (.named f name slash)) :
    d'.locate path = .ok (.named f name slash) := by
  obtain ⟨hpath, hlast, hself, hparent, hslash, hway⟩ := locate_eq_named_iff.1 h
  exact locate_eq_named_iff.2
    ⟨hpath, hlast, hself, hparent, hslash, hsame.foldlM_enter hway⟩

end SameFolders

/-! ## Files at a path -/

/-- A name that a file can have: not too long, and neither that of a folder nor of a device. -/
def IsFileName (d : Directory) (f : Folder) (name : String) : Prop :=
  name.utf8ByteSize ≤ longestName ∧ d.hasFolder f name = false
    ∧ Device.ofPath? (f.path name) = none

lemma SameFolders.isFileName {d' : Directory} (hsame : d.SameFolders d') {f : Folder}
    {name : String} (h : d.IsFileName f name) : d'.IsFileName f name := by
  rw [IsFileName, hsame.hasFolder_eq]
  exact h

lemma lookup_eq {f : Folder} {name : String} (h : d.IsFileName f name) :
    d.lookup f name = .ok (match d.files.get? (f.path name) with
      | some content => .file content
      | none => .absent) := by
  obtain ⟨hlong, hfolder, hdevice⟩ := h
  rw [lookup, if_neg hlong.not_gt, hfolder, if_neg Bool.false_ne_true, hdevice]
  cases d.files.get? (f.path name) <;> rfl

/-- What is no folder and no device is a file or nothing, by whether it has a content. -/
lemma lookup_eq_iff {f : Folder} {name : String} :
    (d.lookup f name = .ok .absent
        ↔ d.IsFileName f name ∧ d.files.get? (f.path name) = none)
      ∧ ∀ content, d.lookup f name = .ok (.file content)
        ↔ d.IsFileName f name ∧ d.files.get? (f.path name) = some content := by
  by_cases hfile : d.IsFileName f name
  · rw [lookup_eq hfile]
    cases d.files.get? (f.path name) <;> simp [hfile]
  · rw [lookup]
    split_ifs with hlong hfolder
    · simp [hfile]
    · simp [hfile]
    · rw [Bool.not_eq_true] at hfolder
      cases hdevice : Device.ofPath? (f.path name) with
      | some k => simp [hfile]
      | none => exact absurd ⟨not_lt.1 hlong, hfolder, hdevice⟩ hfile

/-- A file can be made at the path, and there is none. -/
def Lacks (d : Directory) (path : String) : Prop :=
  ∃ f name, d.locate path = .ok (.named f name false) ∧ d.lookup f name = .ok .absent

/-- The path leads to a file with the text. -/
def Holds (d : Directory) (path text : String) : Prop :=
  ∃ f name, d.locate path = .ok (.named f name false)
    ∧ d.lookup f name = .ok (.file text.toUTF8)

variable {text : String}

lemma lacks_iff : d.Lacks path ↔ ∃ f name, d.locate path = .ok (.named f name false)
    ∧ d.IsFileName f name ∧ d.files.get? (f.path name) = none := by
  simp only [Lacks, lookup_eq_iff.1]

lemma holds_iff : d.Holds path text ↔ ∃ f name, d.locate path = .ok (.named f name false)
    ∧ d.IsFileName f name ∧ d.files.get? (f.path name) = some text.toUTF8 := by
  simp only [Holds, lookup_eq_iff.2]

lemma SameFolders.holds {d' : Directory} (hsame : d.SameFolders d') {f : Folder} {name : String}
    (hlocate : d.locate path = .ok (.named f name false)) (hfile : d.IsFileName f name)
    (hcontent : d'.files.get? (f.path name) = some text.toUTF8) : d'.Holds path text :=
  holds_iff.2 ⟨f, name, hsame.locate hlocate, hsame.isFileName hfile, hcontent⟩

lemma textOf_toUTF8 (text : String) : textOf text.toUTF8 = .ok text := by
  have hvalid : text.toUTF8.IsValidUTF8 := text.isValidUTF8
  rw [textOf, String.fromUTF8?, dif_pos hvalid]
  rfl

/-- A file is read with its text. -/
theorem read_of_holds (h : d.Holds path text) : d.read path = .ok text := by
  obtain ⟨f, name, hlocate, hlookup⟩ := h
  refine bind_eq_ok.2 ⟨_, hlocate, bind_eq_ok.2 ⟨_, hlookup, ?_⟩⟩
  exact textOf_toUTF8 text

/-! ## Where text can be appended -/

/-- A file is at the path, or can be made there. -/
def Takes (d : Directory) (path : String) : Prop :=
  ∃ f name, d.locate path = .ok (.named f name false) ∧ d.IsFileName f name

lemma takes_of_lacks (h : d.Lacks path) : d.Takes path := by
  obtain ⟨f, name, hlocate, hfile, -⟩ := lacks_iff.1 h
  exact ⟨f, name, hlocate, hfile⟩

lemma takes_of_holds (h : d.Holds path text) : d.Takes path := by
  obtain ⟨f, name, hlocate, hfile, -⟩ := holds_iff.1 h
  exact ⟨f, name, hlocate, hfile⟩

/-- A file at a path, made if there is none, has a text behind what was in it before, and nothing
else is different. -/
def Extends (d : Directory) (path text : String) (d' : Directory) : Prop :=
  ∃ f name, d.locate path = .ok (.named f name false) ∧ d.IsFileName f name
    ∧ d' = { d with
        files := d.files.insert (f.path name)
          ((d.files.get? (f.path name)).getD .empty ++ text.toUTF8) }

/-- **Text can be appended where a path takes it.** -/
lemma append_of_takes (h : d.Takes path) (text : String) :
    ∃ d', d.append path text = .ok d' ∧ d.Extends path text d' := by
  obtain ⟨f, name, hlocate, hfile⟩ := h
  have hlookup := lookup_eq hfile
  refine ⟨_, ?_, f, name, hlocate, hfile, rfl⟩
  rw [append, hlocate]
  dsimp only
  rw [hlookup]
  cases d.files.get? (f.path name) with
  | some content => rfl
  | none => simp

/-- **Appending extends a file**, unless it is one that keeps nothing. -/
lemma extends_of_append {d' : Directory} (h : d.append path text = .ok d') :
    d' = d ∨ d.Extends path text d' := by
  by_cases htakes : d.Takes path
  · obtain ⟨d'', happend, hextends⟩ := append_of_takes htakes text
    obtain rfl := Except.ok.inj (h.symm.trans happend)
    exact .inr hextends
  · rw [append] at h
    split at h
    · cases h
    · cases h
    · cases h
    · next f name hlocate =>
        split at h
        · cases h
        · cases h
        · cases h
          exact .inl rfl
        · cases h
        · next content hlookup =>
            exact absurd ⟨f, name, hlocate, ((lookup_eq_iff.2 content).1 hlookup).1⟩ htakes
        · next hlookup => exact absurd (takes_of_lacks ⟨f, name, hlocate, hlookup⟩) htakes

section Extends

variable {d' : Directory} {more : String}

lemma Extends.sameFolders (h : d.Extends path more d') : d.SameFolders d' := by
  obtain ⟨f, name, hlocate, -, rfl⟩ := h
  exact sameFolders_insert (isName_of_locate hlocate) f _

lemma holds_of_extends_of_lacks (h : d.Lacks path) (hext : d.Extends path text d') :
    d'.Holds path text := by
  have hsame := hext.sameFolders
  obtain ⟨f, name, hlocate, hfile, hnone⟩ := lacks_iff.1 h
  obtain ⟨f', name', hlocate', -, rfl⟩ := hext
  cases hlocate.symm.trans hlocate'
  refine hsame.holds hlocate hfile ?_
  rw [Catalog.get?_insert, if_pos rfl, hnone, Option.getD_none, ByteArray.empty_append]

/-- Wherever text is appended, a file keeps what is in it, and at its own path gets the text behind
it. -/
lemma holds_of_extends_at {other : String} (h : d.Holds path text)
    (hext : d.Extends other more d') :
    ∃ added, d'.Holds path (text ++ added) ∧ (other = path → added = more) := by
  have hsame := hext.sameFolders
  obtain ⟨f, name, hlocate, hfile, hcontent⟩ := holds_iff.1 h
  obtain ⟨f', name', hlocate', -, rfl⟩ := hext
  by_cases hpath : f.path name = f'.path name'
  · refine ⟨more, hsame.holds hlocate hfile ?_, fun _ => rfl⟩
    have hbytes : text.toUTF8 ++ more.toUTF8 = (text ++ more).toUTF8 :=
      (String.toByteArray_append ..).symm
    rw [Catalog.get?_insert, if_pos hpath, ← hpath, hcontent, Option.getD_some, hbytes]
  · refine ⟨"", hsame.holds hlocate hfile ?_, ?_⟩
    · rw [Catalog.get?_insert, if_neg hpath, hcontent, String.append_empty]
    · rintro rfl
      cases hlocate.symm.trans hlocate'
      exact absurd rfl hpath

lemma holds_of_extends (h : d.Holds path text) (hext : d.Extends path more d') :
    d'.Holds path (text ++ more) := by
  obtain ⟨added, hholds, hadded⟩ := holds_of_extends_at h hext
  exact hadded rfl ▸ hholds

end Extends

/-- **Text that is appended where there is no file makes one.** -/
theorem append_of_lacks (h : d.Lacks path) (text : String) :
    ∃ d', d.append path text = .ok d' ∧ d'.Holds path text := by
  obtain ⟨d', happend, hextends⟩ := append_of_takes (takes_of_lacks h) text
  exact ⟨d', happend, holds_of_extends_of_lacks h hextends⟩

/-- **Text that is appended to a file comes behind what is there.** -/
theorem append_of_holds (h : d.Holds path text) (more : String) :
    ∃ d', d.append path more = .ok d' ∧ d'.Holds path (text ++ more) := by
  obtain ⟨d', happend, hextends⟩ := append_of_takes (takes_of_holds h) more
  exact ⟨d', happend, holds_of_extends h hextends⟩

/-! ## Appending several texts -/

lemma run_append {d' : Directory} (h : d.append path text = .ok d') :
    (asFiles.append path text).run d = (.ok (), d') := by
  simp only [asFiles, StateT.run_bind, StateT.run_get, pure_bind, h]
  rfl

lemma run_append_of_error {e : AppendError} (h : d.append path text = .error e) :
    (asFiles.append path text).run d = (.error e, d) := by
  simp only [asFiles, StateT.run_bind, StateT.run_get, pure_bind, h]
  rfl

lemma run_appends_cons {d₁ d₂ : Directory} (h : d.append path text = .ok d₁) {rest : List String}
    {outcomes : List (Except AppendError Unit)}
    (hrest : (rest.mapM (asFiles.append path)).run d₁ = (outcomes, d₂)) :
    ((text :: rest).mapM (asFiles.append path)).run d = (.ok () :: outcomes, d₂) := by
  rw [List.mapM_cons, StateT.run_bind, run_append h]
  exact congrArg (fun p : List (Except AppendError Unit) × Directory => (.ok () :: p.1, p.2)) hrest

/-- Texts that are appended to a file one after the other come behind what is there. -/
lemma run_appends_of_holds (h : d.Holds path text) (texts : List String) :
    ∃ d', (texts.mapM (asFiles.append path)).run d = (texts.map fun _ => .ok (), d')
      ∧ d'.Holds path (text ++ String.join texts) := by
  induction texts generalizing d text with
  | nil => exact ⟨d, rfl, by simpa using h⟩
  | cons more rest ih =>
      obtain ⟨d₁, hmore, h₁⟩ := append_of_holds h more
      obtain ⟨d₂, hrest, h₂⟩ := ih h₁
      refine ⟨d₂, run_appends_cons hmore hrest, ?_⟩
      rw [String.join_cons, ← String.append_assoc]
      exact h₂

/-- **Texts that are appended where there is no file** are all written, and read back as one. -/
theorem run_appends_of_lacks (h : d.Lacks path) (texts : List String) :
    ∃ d', (texts.mapM (asFiles.append path)).run d = (texts.map fun _ => .ok (), d')
      ∧ (texts = [] ∧ d' = d ∨ d'.read path = .ok (String.join texts)) := by
  cases texts with
  | nil => exact ⟨d, rfl, .inl ⟨rfl, rfl⟩⟩
  | cons first rest =>
      obtain ⟨d₁, hfirst, h₁⟩ := append_of_lacks h first
      obtain ⟨d₂, hrest, h₂⟩ := run_appends_of_holds h₁ rest
      refine ⟨d₂, run_appends_cons hfirst hrest, .inr ?_⟩
      rw [String.join_cons]
      exact read_of_holds h₂

end CycleAccounting.Directory
