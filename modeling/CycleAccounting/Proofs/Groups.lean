import CycleAccounting.Proofs.Lineage
import CycleAccounting.Tree.Groups
import Mathlib.Data.List.Perm.Basic

/-!
# Roots and their groups

`Tree.simplify` lets one group after the other claim roots, and each time goes on with the roots
that are left.  Told without this recursion, every root goes to the first group that claims it
(`roots_simplify`): the simplified tree has one leaf for each group, which reads what its roots
read, and then the roots that no group claims.  So the categories that are read stay the same, each
as often as before (`perm_keys_simplify`).
-/

namespace CycleAccounting

/-! ## Accepted groups -/

namespace Groups

lemma offence?_eq_none {α : Type} {earlier : List String} {groups : List Group}
    (h : (offence? earlier groups : Option (TreeError α)) = none) :
    (groups.map (·.name)).Nodup ∧ ∀ g ∈ groups, g.name ≠ remainderName ∧ g.name ∉ earlier := by
  induction groups generalizing earlier with
  | nil => exact ⟨List.nodup_nil, by simp⟩
  | cons g rest ih =>
      rw [offence?] at h
      split_ifs at h with hreserved hearlier
      obtain ⟨hnodup, hrest⟩ := ih h
      refine ⟨List.nodup_cons.2 ⟨?_, hnodup⟩, ?_⟩
      · intro hmem
        obtain ⟨g', hg', hsame⟩ := List.mem_map.1 hmem
        exact (hrest g' hg').2 (hsame ▸ List.mem_cons_self)
      · intro g' hg'
        rcases List.mem_cons.1 hg' with rfl | hg'
        · exact ⟨hreserved, hearlier⟩
        · obtain ⟨hname, hnew⟩ := hrest g' hg'
          exact ⟨hname, fun hold => hnew (List.mem_cons_of_mem _ hold)⟩

/-- **Accepted groups have distinct names**, and none is called like a remainder. -/
theorem ofList_eq_ok {α : Type} {list : List Group} {groups : Groups}
    (h : (ofList list : Except (TreeError α) Groups) = .ok groups) :
    groups.toList = list ∧ (list.map (·.name)).Nodup ∧ ∀ g ∈ list, g.name ≠ remainderName := by
  rw [ofList] at h
  split at h
  · cases h
  · next hnone =>
      obtain rfl := Except.ok.inj h
      obtain ⟨hnodup, hnames⟩ := offence?_eq_none hnone
      exact ⟨rfl, hnodup, fun g hg => (hnames g hg).1⟩

/-! ## The group of a root -/

lemma groupOf?_cons (g : Group) (rest : List Group) (root : String) :
    groupOf? ⟨g :: rest⟩ root = if g.claims root then some g.name else groupOf? ⟨rest⟩ root := by
  rw [groupOf?, List.find?_cons]
  cases g.claims root <;> rfl

lemma name_mem_of_groupOf? {list : List Group} {root name : String}
    (h : groupOf? ⟨list⟩ root = some name) : name ∈ list.map (·.name) := by
  obtain ⟨g, hg, rfl⟩ := Option.map_eq_some_iff.1 h
  exact List.mem_map_of_mem (List.mem_of_find?_eq_some hg)

end Groups

/-! ## Keys -/

namespace Node

variable {α : Type}

lemma keysOfAll_eq (ns : List (Node α)) : keysOfAll ns = ns.flatMap keys := by
  induction ns with
  | nil => rfl
  | cons n rest ih => rw [keysOfAll, ih, List.flatMap_cons]

lemma perm_keysOfAll {ns ns' : List (Node α)} (h : ns.Perm ns') :
    (keysOfAll ns).Perm (keysOfAll ns') := by
  rw [keysOfAll_eq, keysOfAll_eq]
  exact h.flatMap_right _

end Node

/-! ## Simplified trees -/

namespace Tree

variable {α : Type}

/-- The roots that go to the group of a name. -/
def claimed (tree : Tree α) (groups : Groups) (name : String) : List (Node α) :=
  tree.roots.filter (groups.groupOf? ·.name = some name)

/-- The roots that no group claims. -/
def unclaimed (tree : Tree α) (groups : Groups) : List (Node α) :=
  tree.roots.filter (groups.groupOf? ·.name = none)

/-- The roots that are left to later groups are those that the first one does not claim. -/
lemma claimed_cons_of_ne (roots : List (Node α)) {g : Group} (rest : List Group) {name : String}
    (h : g.name ≠ name) :
    claimed ⟨roots.filter (!g.claims ·.name)⟩ ⟨rest⟩ name = claimed ⟨roots⟩ ⟨g :: rest⟩ name := by
  rw [claimed, claimed, List.filter_filter]
  refine List.filter_congr ?_
  intro n _
  rw [Groups.groupOf?_cons]
  cases g.claims n.name <;> simp [h]

lemma claimed_cons_self (roots : List (Node α)) {g : Group} {rest : List Group}
    (h : g.name ∉ rest.map (·.name)) :
    claimed ⟨roots⟩ ⟨g :: rest⟩ g.name = roots.filter (g.claims ·.name) := by
  rw [claimed]
  refine List.filter_congr ?_
  intro n _
  have hlater : Groups.groupOf? ⟨rest⟩ n.name ≠ some g.name :=
    fun hsome => h (Groups.name_mem_of_groupOf? hsome)
  rw [Groups.groupOf?_cons]
  cases g.claims n.name <;> simp [hlater]

lemma unclaimed_cons (roots : List (Node α)) (g : Group) (rest : List Group) :
    unclaimed ⟨roots.filter (!g.claims ·.name)⟩ ⟨rest⟩ = unclaimed ⟨roots⟩ ⟨g :: rest⟩ := by
  rw [unclaimed, unclaimed, List.filter_filter]
  refine List.filter_congr ?_
  intro n _
  rw [Groups.groupOf?_cons]
  cases g.claims n.name <;> simp

variable [Amount α]

/-- The leaf of a group, which reads what the roots that go to it read. -/
def groupLeaf (tree : Tree α) (groups : Groups) (g : Group) : Node α :=
  .leaf g.name 0 (.sum (Node.keysOfAll (tree.claimed groups g.name)))

lemma regroup_eq {list : List Group} (h : (list.map (·.name)).Nodup) (roots : List (Node α)) :
    regroup list roots
      = list.map (groupLeaf ⟨roots⟩ ⟨list⟩) ++ unclaimed ⟨roots⟩ ⟨list⟩ := by
  induction list generalizing roots with
  | nil => simp [regroup, unclaimed, Groups.groupOf?]
  | cons g rest ih =>
      obtain ⟨hnew, hrest⟩ := List.nodup_cons.1 h
      have hlater : rest.map (groupLeaf ⟨roots.filter (!g.claims ·.name)⟩ ⟨rest⟩)
          = rest.map (groupLeaf ⟨roots⟩ ⟨g :: rest⟩) := by
        refine List.map_congr_left ?_
        intro g' hg'
        have hne : g.name ≠ g'.name := by
          intro hsame
          exact hnew (List.mem_map.2 ⟨g', hg', hsame.symm⟩)
        rw [groupLeaf, groupLeaf, claimed_cons_of_ne roots rest hne]
      rw [regroup, ih hrest, hlater, unclaimed_cons, List.map_cons, List.cons_append, groupLeaf,
        claimed_cons_self roots hnew]

/-- **The roots of a simplified tree**: for each group the leaf of the roots that go to it, then the
roots that no group claims. -/
theorem roots_simplify (tree : Tree α) {groups : Groups}
    (h : (groups.toList.map (·.name)).Nodup) :
    (tree.simplify groups).roots
      = groups.toList.map (tree.groupLeaf groups) ++ tree.unclaimed groups :=
  regroup_eq h tree.roots

lemma perm_keys_regroup (list : List Group) (roots : List (Node α)) :
    (Node.keysOfAll (regroup list roots)).Perm (Node.keysOfAll roots) := by
  induction list generalizing roots with
  | nil => exact .refl _
  | cons g rest ih =>
      have hparts : (Node.keysOfAll (roots.filter (g.claims ·.name)
          ++ roots.filter (!g.claims ·.name))).Perm (Node.keysOfAll roots) :=
        Node.perm_keysOfAll (List.filter_append_perm _ roots)
      rw [Node.keysOfAll_eq, List.flatMap_append, ← Node.keysOfAll_eq, ← Node.keysOfAll_eq]
        at hparts
      rw [regroup, Node.keysOfAll]
      exact ((ih _).append_left _).trans hparts

/-- **Simplifying a tree changes nothing about what it reads**, also not how often. -/
theorem perm_keys_simplify (tree : Tree α) (groups : Groups) :
    (tree.simplify groups).keys.Perm tree.keys :=
  perm_keys_regroup groups.toList tree.roots

end Tree

end CycleAccounting
