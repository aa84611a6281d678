import CycleAccounting.Proofs.Groups
import CycleAccounting.Proofs.Names
import CycleAccounting.Proofs.Stack

/-!
# Stacks of simplified trees

Simplifying a tree puts whole roots together and keeps the others as they are.  What a stack shows
of a root is told by the root and by the total alone (`entriesOf_stack`): all entries of its own
stack if it reaches its threshold, and nothing otherwise; and what is shown of no root is in the
remainder (`getD_remainder_stack`).  As the total stays the same, the roots that no group claims are
shown as before, and the leaf of a group, which asks for no share, is shown unless it is negative.
**`accounted_simplify`** says this for the stacks of every core.
-/

namespace CycleAccounting

/-! ## What a stack shows of a root -/

/-- The entries of a stack under the names of a root. -/
def Stack.entriesOf {α : Type} (root : Node α) (s : Stack α) : List (String × α) :=
  s.entries.filter ((root.names none).contains ·.1)

lemma Stack.get?_eq_lookup_entriesOf {α : Type} {root : Node α} {name : String}
    (h : name ∈ root.names none) (s : Stack α) : s.get? name = (s.entriesOf root).lookup name := by
  rw [entriesOf, Catalog.lookup_filter, if_pos (List.contains_iff_mem.2 h)]
  rfl

namespace Node

lemma parts_eq_map {α : Type} [Amount α] (collapse : Bool) (lookup : String → α)
    (parent : Option String) (ns : List (Node α)) :
    parts collapse lookup parent ns
      = ns.map fun n => (n.threshold, n.stack collapse lookup parent) := by
  induction ns with
  | nil => rfl
  | cons n rest ih => rw [parts, ih, List.map_cons]

lemma mem_namesOfAll {α : Type} {parent : Option String} {name : String} {ns : List (Node α)} :
    name ∈ namesOfAll parent ns ↔ ∃ n ∈ ns, name ∈ n.names parent := by
  induction ns with
  | nil => simp [namesOfAll]
  | cons n rest ih => rw [namesOfAll, List.mem_append, ih, List.exists_mem_cons_iff]

lemma fst_mem_names {α : Type} [Amount α] {collapse : Bool} {lookup : String → α} {n : Node α}
    {parent : Option String} {e : String × α}
    (h : e ∈ (n.stack collapse lookup parent).entries) : e.1 ∈ n.names parent :=
  (n.names_stack_sublist collapse lookup parent).subset (List.mem_map_of_mem h)

end Node

namespace Tree

variable (tree : Tree ℚ) (collapse : Bool) (lookup : String → ℚ)

/-- Whether a stack of the tree shows a root under its own names. -/
def showsRoot (n : Node ℚ) : Bool :=
  Stack.isShown collapse (tree.cycles lookup) (n.threshold, n.stack collapse lookup none)

@[simp] lemma showsRoot_false (n : Node ℚ) : tree.showsRoot false lookup n = true := rfl

lemma showsRoot_true_iff (n : Node ℚ) :
    tree.showsRoot true lookup n = true ↔ tree.Kept lookup [n] := by
  have hwhole : tree.Kept lookup [] := trivial
  rw [showsRoot, Node.isShown_stack_iff]
  exact (tree.kept_append_iff lookup hwhole n).symm

/-- **A stack shows some of the roots, and the others in its remainder.** -/
lemma entries_stack : (tree.stack collapse lookup).entries
    = (tree.roots.filter (tree.showsRoot collapse lookup)).flatMap
        (fun n => (n.stack collapse lookup none).entries)
      ++ Stack.remainderEntries none
        (((tree.roots.filter (!tree.showsRoot collapse lookup ·)).map (·.cycles lookup)).sum) := by
  have hcycles : (fun n : Node ℚ => (n.stack collapse lookup none).total)
      = fun n => n.cycles lookup := funext (Node.total_stack lookup collapse none)
  rw [stack, Stack.entries_combine, Node.subtotal_parts, Node.parts_eq_map, List.filter_map,
    List.filter_map, List.flatMap_map, List.map_map, ← hcycles]
  rfl

lemma entriesOf_stack_self (n : Node ℚ) :
    (n.stack collapse lookup none).entriesOf n = (n.stack collapse lookup none).entries := by
  rw [Stack.entriesOf, List.filter_eq_self]
  intro e he
  exact List.contains_iff_mem.2 (Node.fst_mem_names he)

lemma entriesOf_stack_of_disjoint {m n : Node ℚ} (h : (m.names none).Disjoint (n.names none)) :
    (m.stack collapse lookup none).entriesOf n = [] := by
  rw [Stack.entriesOf, List.filter_eq_nil_iff]
  intro e he hown
  exact h (Node.fst_mem_names he) (List.contains_iff_mem.1 hown)

/-- Among siblings with distinct names, only its own stack has entries under the names of a root. -/
lemma flatMap_entriesOf {ns : List (Node ℚ)} (hnames : (Node.namesOfAll none ns).Nodup)
    {n : Node ℚ} (hn : n ∈ ns) (p : Node ℚ → Bool) :
    (ns.filter p).flatMap (fun m => (m.stack collapse lookup none).entriesOf n)
      = if p n then (n.stack collapse lookup none).entries else [] := by
  induction ns with
  | nil => cases hn
  | cons m rest ih =>
      rw [Node.namesOfAll, List.nodup_append'] at hnames
      obtain ⟨-, hrest, hdisjoint⟩ := hnames
      have hcons : ((m :: rest).filter p).flatMap
            (fun m => (m.stack collapse lookup none).entriesOf n)
          = (if p m then (m.stack collapse lookup none).entriesOf n else [])
            ++ (rest.filter p).flatMap fun m => (m.stack collapse lookup none).entriesOf n := by
        rw [List.filter_cons]
        split_ifs <;> rfl
      rw [hcons]
      rcases List.mem_cons.1 hn with rfl | hmem
      · have hothers : (rest.filter p).flatMap
            (fun m => (m.stack collapse lookup none).entriesOf n) = [] := by
          rw [List.flatMap_eq_nil_iff]
          intro m hm
          refine entriesOf_stack_of_disjoint collapse lookup ?_
          intro name hname hown
          exact hdisjoint hown (Node.mem_namesOfAll.2 ⟨m, List.mem_of_mem_filter hm, hname⟩)
        rw [hothers, List.append_nil, entriesOf_stack_self]
      · have hhead : (m.names none).Disjoint (n.names none) := fun name hname hown =>
          hdisjoint hname (Node.mem_namesOfAll.2 ⟨n, hmem, hown⟩)
        rw [entriesOf_stack_of_disjoint collapse lookup hhead, ite_self, List.nil_append,
          ih hrest hmem]

variable {tree}

/-- **A root is shown as a whole or not at all**: either with all entries of its own stack, or with
none. -/
theorem entriesOf_stack (hnames : tree.names.Nodup) {n : Node ℚ} (hn : n ∈ tree.roots) :
    (tree.stack collapse lookup).entriesOf n
      = if tree.showsRoot collapse lookup n then (n.stack collapse lookup none).entries
        else [] := by
  rw [names, List.nodup_append'] at hnames
  obtain ⟨hroots, -, hdisjoint⟩ := hnames
  have hremainder (x : ℚ) : (Stack.remainderEntries none x).filter
      ((n.names none).contains ·.1) = [] := by
    rw [List.filter_eq_nil_iff]
    intro e he hown
    have hname : e.1 = remainderName := by
      rw [Stack.remainderEntries] at he
      split_ifs at he
      · cases he
      · rw [List.mem_singleton.1 he]
        rfl
    exact hdisjoint (Node.mem_namesOfAll.2 ⟨n, hn, List.contains_iff_mem.1 hown⟩)
      (List.mem_singleton.2 hname)
  rw [Stack.entriesOf, entries_stack, List.filter_append, hremainder, List.append_nil,
    List.filter_flatMap]
  exact flatMap_entriesOf collapse lookup hroots hn _

/-- **What is not shown of the roots is the remainder.** -/
theorem getD_remainder_stack (hnames : tree.names.Nodup) :
    ((tree.stack collapse lookup).get? remainderName).getD 0
      = ((tree.roots.filter (!tree.showsRoot collapse lookup ·)).map (·.cycles lookup)).sum := by
  rw [names, List.nodup_append'] at hnames
  obtain ⟨-, -, hdisjoint⟩ := hnames
  have hnone : ((tree.roots.filter (tree.showsRoot collapse lookup)).flatMap
      fun n => (n.stack collapse lookup none).entries).lookup remainderName = none := by
    rw [List.lookup_eq_none_iff]
    intro e he
    obtain ⟨n, hn, he⟩ := List.mem_flatMap.1 he
    rw [bne_iff_ne]
    intro hname
    exact hdisjoint (Node.mem_namesOfAll.2 ⟨n, List.mem_of_mem_filter hn, Node.fst_mem_names he⟩)
      (List.mem_singleton.2 hname.symm)
  rw [Stack.get?, entries_stack, List.lookup_append, hnone, Option.none_or,
    Stack.remainderEntries]
  split_ifs with hzero
  · exact hzero.symm
  · have hself : (remainderName == path none remainderName) = true := beq_self_eq_true remainderName
    rw [List.lookup_cons, hself]
    rfl

end Tree

/-! ## Stacks before and after -/

namespace Tree

variable (tree : Tree ℚ) (groups : Groups) (lookup : String → ℚ)

/-- The sum of the subtotals of the roots that go to the group of a name. -/
def groupCycles (name : String) : ℚ :=
  ((tree.claimed groups name).map fun n => (n.stack true lookup none).total).sum

lemma cycles_groupLeaf (g : Group) :
    (tree.groupLeaf groups g).cycles lookup = tree.groupCycles groups lookup g.name := by
  simp only [groupCycles, Node.total_stack]
  rw [groupLeaf, Node.cycles, Node.keys, Source.keys, Node.keysOfAll_eq, List.map_flatMap,
    List.flatMap_def, List.sum_flatten, List.map_map]
  rfl

lemma entries_groupLeaf (collapse : Bool) (g : Group) :
    ((tree.groupLeaf groups g).stack collapse lookup none).entries
      = [(g.name, tree.groupCycles groups lookup g.name)] := by
  have htotal := Node.total_stack lookup collapse none (tree.groupLeaf groups g)
  rw [cycles_groupLeaf] at htotal
  rw [← htotal]
  rfl

@[simp] lemma cycles_simplify : (tree.simplify groups).cycles lookup = tree.cycles lookup :=
  ((tree.perm_keys_simplify groups).map lookup).sum_eq

/-- The leaf of a group asks for no share, so it is only hidden if it is negative. -/
lemma showsRoot_groupLeaf (g : Group) :
    (tree.simplify groups).showsRoot true lookup (tree.groupLeaf groups g)
      = decide (0 ≤ tree.groupCycles groups lookup g.name) := by
  rw [showsRoot, Stack.isShown_true, Node.total_stack, cycles_groupLeaf]
  simp [groupLeaf, Node.threshold]

@[simp] lemma kept_simplify_iff (n : Node ℚ) :
    (tree.simplify groups).Kept lookup [n] ↔ tree.Kept lookup [n] := by
  rw [Kept, Kept, cycles_simplify]

@[simp] lemma showsRoot_simplify (collapse : Bool) (n : Node ℚ) :
    (tree.simplify groups).showsRoot collapse lookup n = tree.showsRoot collapse lookup n := by
  rw [showsRoot, showsRoot, cycles_simplify]

/-- **What a stack of a simplified tree shows**, next to the stack of the tree itself. -/
structure Simplifies (books : Books ℚ) (core : ℕ) : Prop where
  total_eq : ∀ collapse collapse', ((tree.simplify groups).stackOf collapse books core).total
    = (tree.stackOf collapse' books core).total
  /-- Without collapsing, a group has what its roots have. -/
  group : ∀ g ∈ groups.toList, ((tree.simplify groups).stackOf false books core).get? g.name
    = some (tree.groupCycles groups (books.amount core) g.name)
  /-- With collapsing, a group is shown exactly if it is not negative. -/
  group_collapsed : ∀ g ∈ groups.toList,
    ((tree.simplify groups).stackOf true books core).get? g.name
      = if 0 ≤ tree.groupCycles groups (books.amount core) g.name
        then some (tree.groupCycles groups (books.amount core) g.name) else none
  /-- The negative groups are in the remainder, with the roots that are not kept. -/
  remainder : (((tree.simplify groups).stackOf true books core).get? remainderName).getD 0
    = ((groups.toList.map fun g => tree.groupCycles groups (books.amount core) g.name).filter
          (· < 0)).sum
      + (((tree.unclaimed groups).filter fun n => ¬ tree.Kept (books.amount core) [n]).map
          fun n => (n.stack true (books.amount core) none).total).sum
  /-- A root that no group claims has all its entries in both stacks, or none in both. -/
  root : ∀ n ∈ tree.unclaimed groups,
    (tree.Kept (books.amount core) [n] ∧ (tree.simplify groups).Kept (books.amount core) [n]
        ∧ (tree.stackOf true books core).entriesOf n
            = (n.stack true (books.amount core) none).entries
        ∧ ((tree.simplify groups).stackOf true books core).entriesOf n
            = (n.stack true (books.amount core) none).entries)
      ∨ ¬ tree.Kept (books.amount core) [n] ∧ ¬ (tree.simplify groups).Kept (books.amount core) [n]
        ∧ (tree.stackOf true books core).entriesOf n = []
        ∧ ((tree.simplify groups).stackOf true books core).entriesOf n = []

variable {tree groups lookup}

/-- Where names are distinct, the leaf of a group is shown under the name of the group or not at
all. -/
lemma get?_group {collapse : Bool} (hgroups : (groups.toList.map (·.name)).Nodup)
    (hnames : (tree.simplify groups).names.Nodup) {g : Group} (hg : g ∈ groups.toList) :
    ((tree.simplify groups).stack collapse lookup).get? g.name
      = if (tree.simplify groups).showsRoot collapse lookup (tree.groupLeaf groups g)
        then some (tree.groupCycles groups lookup g.name) else none := by
  have hroot : tree.groupLeaf groups g ∈ (tree.simplify groups).roots := by
    rw [roots_simplify tree hgroups]
    exact List.mem_append_left _ (List.mem_map_of_mem hg)
  have hname : g.name ∈ (tree.groupLeaf groups g).names none := List.mem_singleton_self _
  rw [Stack.get?_eq_lookup_entriesOf hname, entriesOf_stack collapse lookup hnames hroot,
    entries_groupLeaf]
  split_ifs
  · exact List.lookup_cons_self
  · rfl

lemma getD_remainder_simplify (hgroups : (groups.toList.map (·.name)).Nodup)
    (hnames : (tree.simplify groups).names.Nodup) :
    (((tree.simplify groups).stack true lookup).get? remainderName).getD 0
      = ((groups.toList.map fun g => tree.groupCycles groups lookup g.name).filter (· < 0)).sum
        + (((tree.unclaimed groups).filter fun n => ¬ tree.Kept lookup [n]).map
            fun n => (n.stack true lookup none).total).sum := by
  rw [getD_remainder_stack true lookup hnames, roots_simplify tree hgroups, List.filter_append,
    List.map_append, List.sum_append]
  congr 1
  · rw [List.filter_map, List.map_map, List.filter_map]
    have hleaf (g : Group) : (!(tree.simplify groups).showsRoot true lookup
        (tree.groupLeaf groups g)) = decide (tree.groupCycles groups lookup g.name < 0) := by
      rw [showsRoot_groupLeaf, ← decide_not]
      simp only [not_le]
    simp only [Function.comp_def, hleaf, cycles_groupLeaf]
  · have hroot (n : Node ℚ) : (!(tree.simplify groups).showsRoot true lookup n)
        = decide (¬ tree.Kept lookup [n]) := by
      simp only [showsRoot_simplify, decide_not, ← showsRoot_true_iff, Bool.decide_eq_true]
    simp only [hroot, Node.total_stack]

lemma entriesOf_unclaimed (hgroups : (groups.toList.map (·.name)).Nodup)
    (htree : tree.names.Nodup) (hnames : (tree.simplify groups).names.Nodup) {n : Node ℚ}
    (hn : n ∈ tree.unclaimed groups) :
    (tree.Kept lookup [n] ∧ (tree.simplify groups).Kept lookup [n]
        ∧ (tree.stack true lookup).entriesOf n = (n.stack true lookup none).entries
        ∧ ((tree.simplify groups).stack true lookup).entriesOf n
            = (n.stack true lookup none).entries)
      ∨ ¬ tree.Kept lookup [n] ∧ ¬ (tree.simplify groups).Kept lookup [n]
        ∧ (tree.stack true lookup).entriesOf n = []
        ∧ ((tree.simplify groups).stack true lookup).entriesOf n = [] := by
  have hroot : n ∈ (tree.simplify groups).roots := by
    rw [roots_simplify tree hgroups]
    exact List.mem_append_right _ hn
  rw [entriesOf_stack true lookup htree (List.mem_of_mem_filter hn),
    entriesOf_stack true lookup hnames hroot, showsRoot_simplify, kept_simplify_iff,
    ← showsRoot_true_iff]
  split_ifs with hshown
  · exact .inl ⟨hshown, hshown, rfl, rfl⟩
  · exact .inr ⟨hshown, hshown, rfl, rfl⟩

end Tree

/-- **Simplifying preserves the accounting.**  For an accepted tree, accepted groups and a
simplified tree that would be accepted again, the stacks of every core have the same totals; a group
has what the roots that go to it have, and is only hidden if that is negative; and the roots that no
group claims are shown as before. -/
theorem accounted_simplify {roots : List (Node ℚ)} {tree : Tree ℚ} {list : List Group}
    {groups : Groups} (htree : Tree.ofRoots roots = .ok tree)
    (hgroups : (Groups.ofList list : Except (TreeError ℚ) Groups) = .ok groups)
    (hsimplified : Tree.ofRoots (tree.simplify groups).roots = .ok (tree.simplify groups))
    (books : Books ℚ) (core : ℕ) :
    tree.roots = roots ∧ groups.toList = list ∧ tree.Simplifies groups books core := by
  obtain ⟨hroots, hnames⟩ := Tree.ofRoots_eq_ok htree
  obtain ⟨hlist, hdistinct, -⟩ := Groups.ofList_eq_ok hgroups
  rw [← hlist] at hdistinct
  obtain ⟨-, hnames'⟩ := Tree.ofRoots_eq_ok hsimplified
  refine ⟨hroots, hlist, ?_, ?_, ?_, ?_, ?_⟩
  · intro collapse collapse'
    simp [Tree.stackOf, Tree.total_stack]
  · intro g hg
    rw [Tree.stackOf, Tree.get?_group hdistinct hnames' hg, Tree.showsRoot_false, if_pos rfl]
  · intro g hg
    rw [Tree.stackOf, Tree.get?_group hdistinct hnames' hg, Tree.showsRoot_groupLeaf]
    simp only [decide_eq_true_eq]
  · exact Tree.getD_remainder_simplify hdistinct hnames'
  · intro n hn
    exact Tree.entriesOf_unclaimed hdistinct hnames hnames' hn

/-- Both groups list the caches, which go to the first one. -/
def overlappingGroups : List Group := [⟨"caches", ["mem", "absent"]⟩, ⟨"work", ["base", "mem"]⟩]

/-- One core, whose caches have less than nothing. -/
def indebtedBooks : Books ℚ :=
  ⟨[((((Catalog.empty.insert "Base" 90).insert "L1" (-8)).insert "L2" 1).insert "L3" (-1)).insert
    "Futex" 2]⟩

theorem accounted_overlappingGroups :
    Tree.ofRoots foldedRoots = .ok ⟨foldedRoots⟩
      ∧ (Groups.ofList overlappingGroups : Except (TreeError ℚ) Groups) = .ok ⟨overlappingGroups⟩
      ∧ Tree.ofRoots (Tree.simplify ⟨foldedRoots⟩ ⟨overlappingGroups⟩).roots
          = .ok (Tree.simplify ⟨foldedRoots⟩ ⟨overlappingGroups⟩)
      ∧ Tree.Simplifies ⟨foldedRoots⟩ ⟨overlappingGroups⟩ indebtedBooks 0
      ∧ ((Tree.simplify ⟨foldedRoots⟩ ⟨overlappingGroups⟩).stackOf true indebtedBooks 0).entries
          = [("work", 90), ("other", -6)] := by
  have hroots : Tree.ofRoots foldedRoots = .ok ⟨foldedRoots⟩ :=
    Tree.ofRoots_of_isNone (by decide +kernel) (by decide +kernel)
  have hgroups : (Groups.ofList overlappingGroups : Except (TreeError ℚ) Groups)
      = .ok ⟨overlappingGroups⟩ := rfl
  have hsimplified : Tree.ofRoots (Tree.simplify ⟨foldedRoots⟩ ⟨overlappingGroups⟩).roots
      = .ok (Tree.simplify ⟨foldedRoots⟩ ⟨overlappingGroups⟩) :=
    Tree.ofRoots_of_isNone (by decide +kernel) (by decide +kernel)
  obtain ⟨-, -, h⟩ := accounted_simplify hroots hgroups hsimplified indebtedBooks 0
  exact ⟨hroots, hgroups, hsimplified, h, by decide +kernel⟩

end CycleAccounting
