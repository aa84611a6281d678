import CycleAccounting.Proofs.Acceptance
import CycleAccounting.Proofs.Groups
import CycleAccounting.Proofs.Stack

/-!
# Every root goes to one group

Which group a root goes to can be found in two ways: by asking for the first group that claims its
name (`Groups.groupOf?`), or by letting the groups pass over all roots one after the other, each
taking the roots that it claims and noting their names, so that no later group takes them again
(`Tree.passes`).  Where roots have distinct names, both give the simplified tree
(`passes_eq_regroup`), and the groups, with the roots that are left over, are a partition of the
roots (`perm_claimed`).

**`partitioned_simplify`** states this of accepted trees and groups, whatever the groups list: names
that another group lists too, the same name twice, other groups, or nothing that is there.
-/

namespace CycleAccounting

variable {α : Type}

/-! ## Passes over the roots -/

/-- One group's pass: the roots that it takes, and the names noted after it.  What is noted already
is not taken. -/
def Group.pass (g : Group) (noted : List String) : List (Node α) → List (Node α) × List String
  | [] => ([], noted)
  | n :: rest =>
    if n.name ∈ noted ∨ g.claims n.name = false then g.pass noted rest
    else
      let (taken, noted) := g.pass (n.name :: noted) rest
      (n :: taken, noted)

/-- A leaf for each group, which reads what the group's pass takes, and behind them the roots that
no pass has taken. -/
def Tree.passes [Amount α] (roots : List (Node α)) (noted : List String) :
    List Group → List (Node α)
  | [] => roots.filter (·.name ∉ noted)
  | g :: rest =>
    let (taken, noted) := g.pass noted roots
    .leaf g.name 0 (.sum (Node.keysOfAll taken)) :: passes roots noted rest

/-- A pass takes the roots that it claims, except those that are noted. -/
lemma Group.fst_pass (g : Group) {roots : List (Node α)} (h : (roots.map (·.name)).Nodup)
    (noted : List String) :
    (g.pass noted roots).1 = (roots.filter (·.name ∉ noted)).filter (g.claims ·.name) := by
  induction roots generalizing noted with
  | nil => rfl
  | cons n rest ih =>
      obtain ⟨hnew, hrest⟩ := List.nodup_cons.1 h
      rw [pass]
      split_ifs with hskip
      · rw [ih hrest, List.filter_cons]
        split_ifs with hnoted
        · have hclaims : g.claims n.name = false :=
            hskip.resolve_left (of_decide_eq_true hnoted)
          rw [List.filter_cons_of_neg (by simp [hclaims])]
        · rfl
      · obtain ⟨hnoted, hclaims⟩ := not_or.1 hskip
        -- No later root has the name that is noted here.
        have hlater : rest.filter (·.name ∉ n.name :: noted) = rest.filter (·.name ∉ noted) := by
          refine List.filter_congr ?_
          intro m hm
          have hne : m.name ≠ n.name := by
            intro hsame
            exact hnew (List.mem_map.2 ⟨m, hm, hsame⟩)
          simp [hne]
        rw [List.filter_cons_of_pos (by simpa using hnoted),
          List.filter_cons_of_pos (by simpa using hclaims), ← hlater, ← ih hrest]

/-- A pass notes what it claims of the roots, besides what was noted. -/
lemma Group.mem_snd_pass_iff (g : Group) (noted : List String) {roots : List (Node α)}
    {n : Node α} (hn : n ∈ roots) :
    n.name ∈ (g.pass noted roots).2 ↔ n.name ∈ noted ∨ g.claims n.name = true := by
  have hall (name : String) : name ∈ (g.pass noted roots).2
      ↔ name ∈ noted ∨ g.claims name = true ∧ name ∈ roots.map (·.name) := by
    clear hn
    induction roots generalizing noted with
    | nil => simp [pass]
    | cons m rest ih =>
        rw [pass]
        split_ifs with hskip <;> grind
  rw [hall]
  simp [List.mem_map_of_mem hn]

/-- **Passes take the roots as regrouping does**: past the names that are noted, each group gets
what it claims of the roots that earlier groups have left. -/
lemma Tree.passes_eq_regroup [Amount α] {roots : List (Node α)}
    (h : (roots.map (·.name)).Nodup) (noted : List String) (groups : List Group) :
    passes roots noted groups = regroup groups (roots.filter (·.name ∉ noted)) := by
  induction groups generalizing noted with
  | nil => rfl
  | cons g rest ih =>
      have hleft : roots.filter (·.name ∉ (g.pass noted roots).2)
          = (roots.filter (·.name ∉ noted)).filter (!g.claims ·.name) := by
        rw [List.filter_filter]
        refine List.filter_congr ?_
        intro n hn
        rw [Bool.eq_iff_iff]
        simp [g.mem_snd_pass_iff noted hn, and_comm]
      rw [passes, regroup]
      dsimp only
      rw [ih, g.fst_pass h, hleft]

/-! ## The partition -/

/-- **Groups partition the roots**: each root goes to one group, or is left over. -/
lemma Tree.perm_claimed {list : List Group} (h : (list.map (·.name)).Nodup)
    (roots : List (Node α)) :
    ((list.flatMap fun g => claimed ⟨roots⟩ ⟨list⟩ g.name) ++ unclaimed ⟨roots⟩ ⟨list⟩).Perm
      roots := by
  induction list generalizing roots with
  | nil => simp [unclaimed, Groups.groupOf?]
  | cons g rest ih =>
      obtain ⟨hnew, hrest⟩ := List.nodup_cons.1 h
      have hlater : rest.flatMap (fun g' => claimed ⟨roots⟩ ⟨g :: rest⟩ g'.name)
          = rest.flatMap fun g' => claimed ⟨roots.filter (!g.claims ·.name)⟩ ⟨rest⟩ g'.name := by
        refine List.flatMap_congr ?_
        intro g' hg'
        have hne : g.name ≠ g'.name := by
          intro hsame
          exact hnew (List.mem_map.2 ⟨g', hg', hsame.symm⟩)
        exact (claimed_cons_of_ne roots rest hne).symm
      rw [List.flatMap_cons, claimed_cons_self roots hnew, hlater, ← unclaimed_cons,
        List.append_assoc]
      exact ((ih hrest _).append_left _).trans (List.filter_append_perm _ roots)

/-- **Simplifying gathers every root with the others of its group.**  For an accepted tree and
accepted groups, the simplified tree has for each group a leaf of threshold zero, which reads what
the roots read whose names the group is the first to claim, in their order, and then the roots whose
names no group claims, as they were.  Groups that pass over the roots one after the other and note
the names of the roots they take come to the same tree.  So each root goes to one place, and the
simplified tree reads the same categories as often as the tree itself. -/
theorem partitioned_simplify [Amount α] {roots : List (Node α)} {tree : Tree α}
    {list : List Group} {groups : Groups} (htree : Tree.ofRoots roots = .ok tree)
    (hgroups : (Groups.ofList list : Except (TreeError α) Groups) = .ok groups) :
    (tree.simplify groups).roots
        = (list.map fun g => .leaf g.name 0
            (.sum ((roots.filter (groups.groupOf? ·.name = some g.name)).flatMap Node.keys)))
          ++ roots.filter (groups.groupOf? ·.name = none)
      ∧ (tree.simplify groups).roots = Tree.passes roots [] list
      ∧ ((list.flatMap fun g => roots.filter (groups.groupOf? ·.name = some g.name))
          ++ roots.filter (groups.groupOf? ·.name = none)).Perm roots
      ∧ (tree.simplify groups).keys.Perm tree.keys := by
  obtain ⟨rfl, hroots, -, -⟩ := Tree.ofRoots_iff.1 htree
  obtain ⟨rfl, hnames, -⟩ := Groups.ofList_eq_ok hgroups
  refine ⟨?_, ?_, Tree.perm_claimed hnames roots, Tree.perm_keys_simplify _ groups⟩
  · rw [Tree.roots_simplify _ hnames]
    refine congrArg (· ++ _) (List.map_congr_left ?_)
    intro g _
    rw [Tree.groupLeaf, Node.keysOfAll_eq]
    rfl
  · rw [Tree.passes_eq_regroup hroots, List.filter_eq_self.2 (by simp)]
    rfl

/-- The first two groups list each other and the same caches, and the third one lists nothing. -/
def entangledGroups : List Group :=
  [⟨"caches", ["mem", "work", "mem", "absent"]⟩, ⟨"work", ["base", "mem", "caches"]⟩, ⟨"idle", []⟩]

/-- The caches go to the first group, and the locks to none. -/
theorem partitioned_entangledGroups :
    Tree.ofRoots foldedRoots = .ok ⟨foldedRoots⟩
      ∧ (Groups.ofList entangledGroups : Except (TreeError ℚ) Groups) = .ok ⟨entangledGroups⟩
      ∧ (Tree.simplify ⟨foldedRoots⟩ ⟨entangledGroups⟩).roots
        = [.leaf "caches" 0 (.sum ["L1", "L2", "L3"]), .leaf "work" 0 (.sum ["Base", "Issue"]),
          .leaf "idle" 0 (.sum []), .branch "sync" (1 / 2) [.leaf "futex" 0 (.category "Futex")]]
      ∧ (Tree.simplify ⟨foldedRoots⟩ ⟨entangledGroups⟩).keys.Perm (Tree.keys ⟨foldedRoots⟩) := by
  have htree : Tree.ofRoots foldedRoots = .ok ⟨foldedRoots⟩ :=
    Tree.ofRoots_of_isNone (by decide +kernel) (by decide +kernel)
  have hgroups : (Groups.ofList entangledGroups : Except (TreeError ℚ) Groups)
      = .ok ⟨entangledGroups⟩ := rfl
  obtain ⟨hroots, -, -, hkeys⟩ := partitioned_simplify htree hgroups
  exact ⟨htree, hgroups, hroots, hkeys⟩

end CycleAccounting
