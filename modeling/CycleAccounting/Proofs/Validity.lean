import CycleAccounting.Proofs.Acceptance
import CycleAccounting.Proofs.Idempotence
import CycleAccounting.Proofs.Invocations
import CycleAccounting.Proofs.Report
import CycleAccounting.Proofs.Simplification

/-!
# Simplified trees are accepted

`Tree.simplify` does not check the tree that it makes, and need not, as long as no group has a
hyphen in its name.  The roots that it keeps are called differently from every group, since a group
claims the root of its own name; what is shown below a root has a hyphen in its name
(`Node.eq_name_or_hyphen_mem`); and the kept roots had distinct names, and none of a remainder,
before.  So the simplified tree would be accepted (`Tree.ofRoots_simplify`).

**`accepted_simplify`** draws the conclusion for the program: if documents only give accepted trees
(`Readers.ChecksTrees`), every tree that an invocation reads from one is accepted in the form in
which it is used.
-/

namespace CycleAccounting

/-! ## Names with a hyphen -/

namespace Node

variable {α : Type} {name : String}

lemma hyphen_mem_path (parent name : String) : '-' ∈ (path (some parent) name).toList := by
  simp [path]

mutual

lemma hyphen_mem_names (parent : String) :
    ∀ n : Node α, name ∈ n.names (some parent) → '-' ∈ name.toList
  | leaf own _ _, h => by
      rw [names, List.mem_singleton] at h
      rw [h]
      exact hyphen_mem_path parent own
  | branch own _ children, h => by
      rw [names, List.mem_append, List.mem_singleton] at h
      rcases h with h | h
      · exact hyphen_mem_namesOfAll _ children h
      · rw [h]
        exact hyphen_mem_path _ remainderName

lemma hyphen_mem_namesOfAll (parent : String) :
    ∀ ns : List (Node α), name ∈ namesOfAll (some parent) ns → '-' ∈ name.toList
  | [], h => by cases h
  | n :: rest, h => by
      rw [namesOfAll, List.mem_append] at h
      exact h.elim (hyphen_mem_names parent n) (hyphen_mem_namesOfAll parent rest)

end

/-- **What a root is shown under is its name, or has a hyphen in it.** -/
lemma eq_name_or_hyphen_mem {n : Node α} (h : name ∈ n.names none) :
    name = n.name ∨ '-' ∈ name.toList := by
  cases n with
  | leaf own _ _ => exact .inl (List.mem_singleton.1 h)
  | branch own _ children =>
      rw [names, List.mem_append, List.mem_singleton] at h
      rcases h with h | h
      · exact .inr (hyphen_mem_namesOfAll _ children h)
      · rw [h]
        exact .inr (hyphen_mem_path _ remainderName)

lemma namesOfAll_eq_flatMap (parent : Option String) (ns : List (Node α)) :
    namesOfAll parent ns = ns.flatMap (names parent) := by
  induction ns with
  | nil => rfl
  | cons n rest ih => rw [namesOfAll, ih, List.flatMap_cons]

end Node

/-! ## Simplified trees -/

namespace Tree

variable {α : Type} [Amount α] {roots : List (Node α)} {tree : Tree α} {groups : Groups}

omit [Amount α] in
/-- A root that no group claims is not called like a group. -/
lemma name_ne_of_mem_unclaimed {n : Node α} (hn : n ∈ tree.unclaimed groups) {g : Group}
    (hg : g ∈ groups.toList) : n.name ≠ g.name := by
  intro hsame
  have hnone : groups.groupOf? n.name = none := of_decide_eq_true (List.mem_filter.1 hn).2
  rw [Groups.groupOf?, Option.map_eq_none_iff, hsame] at hnone
  exact List.find?_eq_none.1 hnone g hg (Groups.claims_name g)

/-- The full names of a simplified tree: those of the groups, those of the roots that no group
claims, and the remainder. -/
lemma names_simplify (h : (groups.toList.map (·.name)).Nodup) : (tree.simplify groups).names
    = groups.toList.map (·.name)
      ++ (Node.namesOfAll none (tree.unclaimed groups) ++ [remainderName]) := by
  rw [names, roots_simplify tree h, Node.namesOfAll_eq_flatMap, List.flatMap_append,
    ← Node.namesOfAll_eq_flatMap none (tree.unclaimed groups), List.flatMap_map,
    List.append_assoc, List.map_eq_flatMap]
  rfl

/-- The full names of a simplified tree are distinct. -/
lemma nodup_names_simplify (htree : tree.names.Nodup)
    (hgroups : (groups.toList.map (·.name)).Nodup)
    (hreserved : ∀ g ∈ groups.toList, g.name ≠ remainderName)
    (hhyphen : ∀ g ∈ groups.toList, '-' ∉ g.name.toList) : (tree.simplify groups).names.Nodup := by
  have hkept : (Node.namesOfAll none (tree.unclaimed groups) ++ [remainderName]).Nodup := by
    refine List.Nodup.sublist ?_ htree
    rw [names, Node.namesOfAll_eq_flatMap, Node.namesOfAll_eq_flatMap]
    exact (List.filter_sublist.flatMap _).append_right _
  rw [names_simplify hgroups]
  refine hgroups.append hkept ?_
  intro name hname hother
  obtain ⟨g, hg, rfl⟩ := List.mem_map.1 hname
  rcases List.mem_append.1 hother with hother | hother
  · obtain ⟨n, hn, hshown⟩ := Node.mem_namesOfAll.1 hother
    rcases Node.eq_name_or_hyphen_mem hshown with hsame | hmem
    · exact name_ne_of_mem_unclaimed hn hg hsame.symm
    · exact hhyphen g hg hmem
  · exact hreserved g hg (List.mem_singleton.1 hother)

/-- **A simplified tree would be accepted**, if no group has a hyphen in its name. -/
theorem ofRoots_simplify (hzero : Node.isShare (0 : α) = true) (htree : ofRoots roots = .ok tree)
    (hgroups : (groups.toList.map (·.name)).Nodup)
    (hreserved : ∀ g ∈ groups.toList, g.name ≠ remainderName)
    (hhyphen : ∀ g ∈ groups.toList, '-' ∉ g.name.toList) :
    ofRoots (tree.simplify groups).roots = .ok (tree.simplify groups) := by
  obtain ⟨rfl, hroots, hsound, hnames⟩ := ofRoots_iff.1 htree
  have hleaves : (groups.toList.map (groupLeaf ⟨roots⟩ groups)).map (·.name)
      = groups.toList.map (·.name) := List.map_map
  refine ofRoots_iff.2 ⟨rfl, ?_, ?_, nodup_names_simplify hnames hgroups hreserved hhyphen⟩
  · rw [roots_simplify _ hgroups, List.map_append, hleaves]
    refine hgroups.append ((List.filter_sublist.map _).nodup hroots) ?_
    intro name hname hother
    obtain ⟨g, hg, rfl⟩ := List.mem_map.1 hname
    obtain ⟨n, hn, hsame⟩ := List.mem_map.1 hother
    exact name_ne_of_mem_unclaimed hn hg hsame
  · rw [roots_simplify _ hgroups, Node.areSound_iff, List.forall_mem_append]
    rw [Node.areSound_iff] at hsound
    constructor
    · intro n hn
      obtain ⟨g, hg, rfl⟩ := List.mem_map.1 hn
      exact ⟨hreserved g hg, hzero⟩
    · intro n hn
      exact hsound n (List.mem_of_mem_filter hn)

end Tree

/-! ## The trees of the program -/

/-- A tree that is read from a document has been accepted. -/
lemma Tree.ofRoots_of_ofToml {text : String} {tree : Tree Double}
    (h : Tree.ofToml text = .ok tree) : Tree.ofRoots tree.roots = .ok tree := by
  rw [ofToml] at h
  obtain ⟨members, -, h⟩ := bind_eq_ok.1 h
  obtain ⟨definitions, -, h⟩ := bind_eq_ok.1 h
  obtain ⟨roots, -, h⟩ := bind_eq_ok.1 (mapError_eq_ok.1 h)
  obtain ⟨hroots, -⟩ := Tree.ofRoots_eq_ok h
  rw [hroots]
  exact h

/-- The trees that are read from documents have been accepted. -/
def Readers.ChecksTrees (readers : Readers) : Prop :=
  ∀ text own, readers.tree text = .ok own → Tree.ofRoots own.roots = .ok own

/-- **Simplifying gives a tree that would be accepted**, if the tree and the groups have been and no
group has a hyphen in its name; then all its full names, those of remainders too, are distinct.  The
standard groups are such groups.  So where documents give accepted trees, which the standard readers
see to, the tree that an invocation of the program gets from one would be accepted, simplified or
not. -/
theorem accepted_simplify {roots : List (Node Double)} {tree : Tree Double} {list : List Group}
    {groups : Groups} (htree : Tree.ofRoots roots = .ok tree)
    (hgroups : (Groups.ofList list : Except (TreeError Double) Groups) = .ok groups)
    (hhyphen : ∀ g ∈ list, '-' ∉ g.name.toList) :
    Tree.ofRoots (tree.simplify groups).roots = .ok (tree.simplify groups)
      ∧ (tree.simplify groups).names.Nodup
      ∧ (Groups.ofList Groups.standard.toList : Except (TreeError Double) Groups) = .ok .standard
      ∧ (∀ g ∈ Groups.standard.toList, '-' ∉ g.name.toList)
      ∧ Readers.standard.ChecksTrees
      ∧ ∀ readers : Readers, readers.ChecksTrees →
        ∀ (d : Directory) (line : CommandLine) (o : Options Double) (path : String)
          (used : Tree Double), line.tree = some path →
        ((Program.tree readers Directory.asFiles line o).run.run d).1 = .ok used →
        ∃ own, d.Reads readers.tree path own
          ∧ used = (if o.simplified then own.simplify .standard else own)
          ∧ Tree.ofRoots used.roots = .ok used ∧ used.names.Nodup := by
  have hshare : Node.isShare (0 : Double) = true := rfl
  have hstandard : (Groups.ofList Groups.standard.toList : Except (TreeError Double) Groups)
      = .ok .standard := rfl
  have hplain : ∀ g ∈ Groups.standard.toList, '-' ∉ g.name.toList := by decide
  obtain ⟨hlist, hnames, hreserved⟩ := Groups.ofList_eq_ok hgroups
  rw [← hlist] at hnames hreserved hhyphen
  have haccepted := Tree.ofRoots_simplify hshare htree hnames hreserved hhyphen
  refine ⟨haccepted, (Tree.ofRoots_eq_ok haccepted).2, hstandard, hplain,
    fun text own => Tree.ofRoots_of_ofToml, ?_⟩
  intro readers hchecks d line o path used hpath hused
  obtain ⟨outcome, hrun, hvalue⟩ := Program.tree_yields readers d line o
  rw [hrun] at hused
  have hhas := (hvalue used).1 hused
  rw [Program.HasTree, hpath] at hhas
  obtain ⟨own, ⟨text, htext, hread⟩, rfl⟩ := hhas
  have hown := hchecks text own hread
  have hroots : Tree.ofRoots (if o.simplified then own.simplify .standard else own).roots
      = .ok (if o.simplified then own.simplify .standard else own) := by
    split_ifs
    · obtain ⟨-, hnames, hreserved⟩ := Groups.ofList_eq_ok hstandard
      exact Tree.ofRoots_simplify hshare hown hnames hreserved hplain
    · exact hown
  exact ⟨own, ⟨text, htext, hread⟩, rfl, hroots, (Tree.ofRoots_eq_ok hroots).2⟩

/-- A leaf that looks like a path below a group, and a branch with a leaf that is called like the
group. -/
def lookalikeRoots : List (Node Double) :=
  [.leaf "work-base" 0 (.category "Base"),
   .branch "net" 0 [.leaf "work" 0 (.category "Recv")],
   .leaf "mem" 0 (.category "L1")]

/-- A group that lists one of the roots. -/
def memoryGroup (name : String) : List Group := [⟨name, ["mem"]⟩]

/-- Every text is read as the same tree. -/
def lookalikeReaders : Readers :=
  { Readers.standard with tree := fun _ => .ok ⟨lookalikeRoots⟩ }

/-- A command line with a tree from a file in a folder. -/
def treeLine : CommandLine :=
  { Program.circularLine [] with tree := some "trees/own.toml" }

/-- A directory with that file, which is empty. -/
def treeDirectory : Directory :=
  ⟨(Catalog.empty.insert "trees/" .empty).insert "trees/own.toml" .empty, 1⟩

/-- Options that ask for simplified trees. -/
def simplifiedOptions : Options Double := { Options.standard with simplified := true }

/-- A group may be called like a leaf below a branch, but not like the path of the leaf.  The program
gathers the same tree into the standard groups. -/
theorem accepted_lookalikeRoots :
    Tree.ofRoots lookalikeRoots = .ok ⟨lookalikeRoots⟩
      ∧ (Groups.ofList (memoryGroup "work") : Except (TreeError Double) Groups)
        = .ok ⟨memoryGroup "work"⟩
      ∧ (∀ g ∈ memoryGroup "work", '-' ∉ g.name.toList)
      ∧ Tree.ofRoots (Tree.simplify ⟨lookalikeRoots⟩ ⟨memoryGroup "work"⟩).roots
        = .ok (Tree.simplify ⟨lookalikeRoots⟩ ⟨memoryGroup "work"⟩)
      ∧ (Tree.simplify ⟨lookalikeRoots⟩ ⟨memoryGroup "work"⟩).names
        = ["work", "work-base", "net-work", "net-other", "other"]
      ∧ (Groups.ofList (memoryGroup "net-work") : Except (TreeError Double) Groups)
        = .ok ⟨memoryGroup "net-work"⟩
      ∧ ¬ (Tree.simplify ⟨lookalikeRoots⟩ ⟨memoryGroup "net-work"⟩).names.Nodup
      ∧ lookalikeReaders.ChecksTrees
      ∧ ∃ used : Tree Double,
        ((Program.tree lookalikeReaders Directory.asFiles treeLine simplifiedOptions).run.run
            treeDirectory).1 = .ok used
          ∧ used.names = ["compute", "communicate", "synchronize", "work-base", "net-work",
              "net-other", "other"]
          ∧ Tree.ofRoots used.roots = .ok used := by
  have htree : Tree.ofRoots lookalikeRoots = .ok ⟨lookalikeRoots⟩ :=
    Tree.ofRoots_of_isNone (by decide +kernel) (by decide +kernel)
  have hgroups : (Groups.ofList (memoryGroup "work") : Except (TreeError Double) Groups)
      = .ok ⟨memoryGroup "work"⟩ := rfl
  have hhyphen : ∀ g ∈ memoryGroup "work", '-' ∉ g.name.toList := by decide
  obtain ⟨hsimplified, -, -, -, -, hused⟩ := accepted_simplify htree hgroups hhyphen
  have hchecks : lookalikeReaders.ChecksTrees := by
    intro text own hown
    obtain rfl := Except.ok.inj hown
    exact htree
  have hholds : treeDirectory.Holds "trees/own.toml" "" :=
    ⟨.inside (.above 0) "trees", "own.toml", rfl, rfl⟩
  obtain ⟨outcome, hrun, hvalue⟩ :=
    Program.tree_yields lookalikeReaders treeDirectory treeLine simplifiedOptions
  have hgathered := (hvalue (Tree.simplify ⟨lookalikeRoots⟩ .standard)).2
    ⟨_, ⟨_, Directory.read_of_holds hholds, rfl⟩, rfl⟩
  have hresult := (congrArg Prod.fst hrun).trans hgathered
  obtain ⟨-, -, -, haccepted, -⟩ := hused lookalikeReaders hchecks _ _ _ _ _ rfl hresult
  exact ⟨htree, hgroups, hhyphen, hsimplified, by decide +kernel, rfl, by decide +kernel, hchecks,
    _, hresult, by decide +kernel, haccepted⟩

end CycleAccounting
