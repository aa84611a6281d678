import CycleAccounting.Proofs.Groups
import Mathlib.Data.List.Nodup

/-!
# Simplifying twice

The leaves of a simplified tree are roots that groups claim in turn.  A leaf goes to its own group
unless an earlier one lists its name, and then the earlier group gets what the leaf reads.  So a
tree that has been simplified is simplified to itself exactly if every leaf that is taken away reads
nothing (`simplify_simplify_eq_iff`).

A leaf reads something in some tree as soon as its group lists a name that no earlier group claims
and that a root can have.  **`simplify_simplify_iff`** says that groups for which both happen are
the only ones that ever change a simplified tree; the standard groups are not among them.
-/

namespace CycleAccounting

/-! ## The first group that claims -/

namespace Groups

/-- A group that an earlier one lists gets roots nevertheless: it lists a name that a root can have
and that no earlier group claims. -/
def Displaced (groups : Groups) : Prop :=
  ∃ earlier g later, groups.toList = earlier ++ g :: later
    ∧ (∃ e ∈ earlier, g.name ∈ e.members)
    ∧ ∃ member ∈ g.members, member ≠ remainderName
      ∧ ∀ e ∈ earlier, e.name ≠ member ∧ member ∉ e.members

lemma claims_iff (g : Group) (root : String) :
    g.claims root = true ↔ g.name = root ∨ root ∈ g.members := by
  simp [Group.claims]

lemma claims_name (g : Group) : g.claims g.name = true := (claims_iff g g.name).2 (.inl rfl)

variable {earlier later : List Group} {g : Group}

/-- **A root goes to a group exactly if the group claims it and no earlier one does.** -/
theorem groupOf?_eq_some_iff (h : ((earlier ++ g :: later).map (·.name)).Nodup) (root : String) :
    groupOf? ⟨earlier ++ g :: later⟩ root = some g.name
      ↔ g.claims root = true ∧ ∀ e ∈ earlier, e.claims root = false := by
  induction earlier with
  | nil =>
      obtain ⟨hnew, -⟩ := List.nodup_cons.1 h
      have hlater : groupOf? ⟨later⟩ root ≠ some g.name :=
        fun hsome => hnew (name_mem_of_groupOf? hsome)
      rw [List.nil_append, groupOf?_cons]
      cases g.claims root <;> simp [hlater]
  | cons e rest ih =>
      obtain ⟨hnew, hrest⟩ := List.nodup_cons.1 h
      have hne : e.name ≠ g.name := fun hsame => hnew (by simp [hsame])
      rw [List.cons_append, groupOf?_cons, List.forall_mem_cons]
      cases hclaims : e.claims root
      · simpa using ih hrest
      · simp [hne]

end Groups

/-! ## What groups gather -/

/-- Where all elements but one give nothing, that one is all that counts, if it is there once. -/
lemma flatMap_eq_of_others {β γ : Type} {xs : List β} (h : xs.Nodup) {x : β} (hx : x ∈ xs)
    {f : β → List γ} (hothers : ∀ y ∈ xs, y ≠ x → f y = []) : xs.flatMap f = f x := by
  obtain ⟨before, behind, rfl⟩ := List.append_of_mem hx
  obtain ⟨hnew, -⟩ := List.nodup_cons.1 (List.nodup_middle.1 h)
  have hnone (ys : List β) (hnot : x ∉ ys) (hsub : ys ⊆ before ++ x :: behind) :
      ys.flatMap f = [] := by
    rw [List.flatMap_eq_nil_iff]
    intro y hy
    exact hothers y (hsub hy) fun hsame => hnot (hsame ▸ hy)
  rw [List.flatMap_append, List.flatMap_cons,
    hnone before (fun hmem => hnew (List.mem_append_left _ hmem)) (by simp),
    hnone behind (fun hmem => hnew (List.mem_append_right _ hmem)) (by simp),
    List.nil_append, List.append_nil]

namespace Tree

variable {α : Type}

/-- The categories that the leaf of a group reads. -/
def gathered (tree : Tree α) (groups : Groups) (name : String) : List String :=
  Node.keysOfAll (tree.claimed groups name)

variable [Amount α]

/-- The leaves of a simplified tree that a group claims are those of groups with claimed names. -/
lemma claimed_simplify (tree : Tree α) {groups : Groups}
    (h : (groups.toList.map (·.name)).Nodup) (name : String) :
    (tree.simplify groups).claimed groups name
      = (groups.toList.filter (groups.groupOf? ·.name = some name)).map
          (tree.groupLeaf groups) := by
  have hunclaimed : (tree.unclaimed groups).filter (groups.groupOf? ·.name = some name) = [] := by
    rw [List.filter_eq_nil_iff]
    intro n hn
    have hnone : groups.groupOf? n.name = none := of_decide_eq_true (List.mem_filter.1 hn).2
    simp [hnone]
  rw [claimed, roots_simplify tree h, List.filter_append, hunclaimed, List.append_nil,
    List.filter_map]
  rfl

lemma gathered_simplify (tree : Tree α) {groups : Groups}
    (h : (groups.toList.map (·.name)).Nodup) (name : String) :
    (tree.simplify groups).gathered groups name
      = (groups.toList.filter (groups.groupOf? ·.name = some name)).flatMap
          fun g => tree.gathered groups g.name := by
  rw [gathered, claimed_simplify tree h, Node.keysOfAll_eq, List.flatMap_map]
  rfl

/-- The roots that no group claims are still there, and still claimed by none. -/
lemma unclaimed_simplify (tree : Tree α) {groups : Groups}
    (h : (groups.toList.map (·.name)).Nodup) :
    (tree.simplify groups).unclaimed groups = tree.unclaimed groups := by
  have hleaves : (groups.toList.map (tree.groupLeaf groups)).filter
      (groups.groupOf? ·.name = none) = [] := by
    rw [List.filter_eq_nil_iff]
    intro n hn hnone
    obtain ⟨g, hg, rfl⟩ := List.mem_map.1 hn
    have hnone : groups.toList.find? (·.claims g.name) = none :=
      Option.map_eq_none_iff.1 (of_decide_eq_true hnone)
    exact List.find?_eq_none.1 hnone g hg (Groups.claims_name g)
  rw [unclaimed, roots_simplify tree h, List.filter_append, hleaves, List.nil_append, unclaimed,
    List.filter_filter]
  simp only [Bool.and_self]

/-- **Simplifying a simplified tree changes nothing exactly if every group gathers from the leaves
what it gathered from the roots.** -/
theorem simplify_simplify_eq_iff (tree : Tree α) {groups : Groups}
    (h : (groups.toList.map (·.name)).Nodup) :
    (tree.simplify groups).simplify groups = tree.simplify groups
      ↔ ∀ g ∈ groups.toList, (tree.simplify groups).gathered groups g.name
          = tree.gathered groups g.name := by
  have hroots : (tree.simplify groups).simplify groups = tree.simplify groups
      ↔ ((tree.simplify groups).simplify groups).roots = (tree.simplify groups).roots := by
    rw [Tree.mk.injEq]
  rw [hroots, roots_simplify _ h, unclaimed_simplify tree h, roots_simplify tree h,
    List.append_cancel_right_eq, List.map_inj_left]
  refine forall₂_congr ?_
  intro g _
  rw [groupLeaf, groupLeaf, Node.leaf.injEq, Source.sum.injEq]
  simp [gathered]

/-! ## Leaves that are taken away -/

/-- A simplified tree stays as it is if the leaves that are taken away read nothing. -/
lemma simplify_simplify_of_empty (tree : Tree α) {groups : Groups}
    (h : (groups.toList.map (·.name)).Nodup)
    (hempty : ∀ g ∈ groups.toList, groups.groupOf? g.name ≠ some g.name →
      tree.gathered groups g.name = []) :
    (tree.simplify groups).simplify groups = tree.simplify groups := by
  rw [simplify_simplify_eq_iff tree h]
  intro g hg
  rw [gathered_simplify tree h]
  -- All other leaves that the group claims are taken away from their own groups.
  have hothers : ∀ g' ∈ groups.toList.filter (groups.groupOf? ·.name = some g.name), g' ≠ g →
      tree.gathered groups g'.name = [] := by
    intro g' hg' hne
    obtain ⟨hmem, hclaimed⟩ := List.mem_filter.1 hg'
    have hnames : g.name ≠ g'.name := by
      intro hsame
      exact hne (List.inj_on_of_nodup_map h hmem hg hsame.symm)
    refine hempty g' hmem ?_
    rw [of_decide_eq_true hclaimed]
    simpa using hnames
  by_cases hown : groups.groupOf? g.name = some g.name
  · exact flatMap_eq_of_others (f := fun g' => tree.gathered groups g'.name)
      (h.of_map.filter _) (List.mem_filter.2 ⟨hg, decide_eq_true hown⟩) hothers
  · rw [hempty g hg hown, List.flatMap_eq_nil_iff]
    intro g' hg'
    refine hothers g' hg' ?_
    rintro rfl
    exact hown (of_decide_eq_true (List.mem_filter.1 hg').2)

/-! ## Groups that change a simplified tree -/

/-- Unless a group is displaced, simplifying twice is simplifying once. -/
lemma simplify_simplify_of_not_displaced (tree : Tree α) {groups : Groups}
    (h : (groups.toList.map (·.name)).Nodup) (hroots : ∀ n ∈ tree.roots, n.name ≠ remainderName)
    (hdisplaced : ¬ groups.Displaced) :
    (tree.simplify groups).simplify groups = tree.simplify groups := by
  obtain ⟨list⟩ := groups
  refine simplify_simplify_of_empty tree h ?_
  intro g hg hlost
  obtain ⟨earlier, later, rfl⟩ := List.append_of_mem hg
  have hfirst := Groups.groupOf?_eq_some_iff h
  obtain ⟨e, he, hclaims⟩ : ∃ e ∈ earlier, e.claims g.name = true := by
    by_contra hnone
    push Not at hnone
    refine hlost ((hfirst g.name).2 ⟨Groups.claims_name g, ?_⟩)
    simpa using hnone
  have hlisted : g.name ∈ e.members := by
    refine ((Groups.claims_iff e g.name).1 hclaims).resolve_left ?_
    intro hsame
    rw [List.map_append, List.nodup_append'] at h
    exact h.2.2 (List.mem_map_of_mem he) (by simp [hsame])
  have hnone : claimed tree ⟨earlier ++ g :: later⟩ g.name = [] := by
    rw [claimed, List.filter_eq_nil_iff]
    intro n hn hgoes
    obtain ⟨hown, hothers⟩ := (hfirst n.name).1 (of_decide_eq_true hgoes)
    have hne : g.name ≠ n.name := by
      intro hsame
      rw [hsame, hothers e he] at hclaims
      cases hclaims
    refine hdisplaced ⟨earlier, g, later, rfl, ⟨e, he, hlisted⟩, n.name,
      ((Groups.claims_iff g n.name).1 hown).resolve_left hne, hroots n hn, ?_⟩
    intro e' he'
    have hnot := hothers e' he'
    rw [← Bool.not_eq_true, Groups.claims_iff] at hnot
    exact not_or.1 hnot
  rw [gathered, hnone]
  rfl

/-- A tree of one leaf, which reads the category that it is called after. -/
def ofLeaf (name : String) : Tree α := ⟨[.leaf name 0 (.category name)]⟩

lemma ofRoots_ofLeaf (hzero : Node.isShare (0 : α) = true) {name : String}
    (h : name ≠ remainderName) : ofRoots (ofLeaf name : Tree α).roots = .ok (ofLeaf name) := by
  refine ofRoots_of_isNone ?_ ?_
  · simp [ofLeaf, Node.offenceOfAll?, Node.offence?, h, hzero]
  · simp [ofLeaf, names, Node.namesOfAll, Node.names, firstRepeated?, path, h.symm]

lemma gathered_ofLeaf (groups : Groups) (root name : String) :
    (ofLeaf root : Tree α).gathered groups name
      = if groups.groupOf? root = some name then [root] else [] := by
  rw [gathered, claimed, ofLeaf, List.filter_singleton]
  by_cases hgoes : groups.groupOf? root = some name
  · simp [hgoes, Node.name, Node.keysOfAll, Node.keys, Source.keys]
  · simp [hgoes, Node.name, Node.keysOfAll]

/-- The leaf of a displaced group reads something in some tree, and then goes elsewhere. -/
lemma exists_simplify_simplify_ne (hzero : Node.isShare (0 : α) = true) {groups : Groups}
    (h : (groups.toList.map (·.name)).Nodup) (hdisplaced : groups.Displaced) :
    ∃ tree : Tree α, ofRoots tree.roots = .ok tree
      ∧ (tree.simplify groups).simplify groups ≠ tree.simplify groups := by
  obtain ⟨list⟩ := groups
  obtain ⟨earlier, g, later, rfl, ⟨e, he, hlisted⟩, member, hmember, hname, hfree⟩ := hdisplaced
  have hfirst := Groups.groupOf?_eq_some_iff h
  have hgoes : Groups.groupOf? ⟨earlier ++ g :: later⟩ member = some g.name := by
    refine (hfirst member).2 ⟨(Groups.claims_iff g member).2 (.inr hmember), ?_⟩
    intro e' he'
    rw [← Bool.not_eq_true, Groups.claims_iff, not_or]
    exact hfree e' he'
  have hlost : Groups.groupOf? ⟨earlier ++ g :: later⟩ g.name ≠ some g.name := by
    intro hown
    have hnot := ((hfirst g.name).1 hown).2 e he
    rw [(Groups.claims_iff e g.name).2 (.inr hlisted)] at hnot
    cases hnot
  refine ⟨ofLeaf member, ofRoots_ofLeaf hzero hname, ?_⟩
  rw [Ne, simplify_simplify_eq_iff _ h]
  intro hsame
  -- Every leaf that the group gets instead of its own reads nothing.
  have hnothing : ((ofLeaf member : Tree α).simplify ⟨earlier ++ g :: later⟩).gathered
      ⟨earlier ++ g :: later⟩ g.name = [] := by
    rw [gathered_simplify _ h, List.flatMap_eq_nil_iff]
    intro g' hg'
    rw [gathered_ofLeaf, hgoes, if_neg]
    intro hown
    rw [List.mem_filter, ← Option.some.inj hown] at hg'
    exact hlost (of_decide_eq_true hg'.2)
  have hsomething : (ofLeaf member : Tree α).gathered ⟨earlier ++ g :: later⟩ g.name
      = [member] := by
    rw [gathered_ofLeaf, if_pos hgoes]
  rw [hsame g (by simp), hsomething] at hnothing
  cases hnothing

end Tree

/-! ## Simplifying twice -/

/-- **When simplifying twice is simplifying once.**  Accepted groups leave every simplified tree as
it is exactly if no group is displaced.  The standard groups are accepted and leave every simplified
tree as it is, whatever tree it is made of. -/
theorem simplify_simplify_iff {list : List Group} {groups : Groups}
    (h : (Groups.ofList list : Except (TreeError Double) Groups) = .ok groups) :
    groups.toList = list
      ∧ ((∀ (roots : List (Node Double)) (tree : Tree Double), Tree.ofRoots roots = .ok tree →
            (tree.simplify groups).simplify groups = tree.simplify groups)
          ↔ ¬ groups.Displaced)
      ∧ (Groups.ofList Groups.standard.toList : Except (TreeError Double) Groups) = .ok .standard
      ∧ ∀ tree : Tree Double,
          (tree.simplify .standard).simplify .standard = tree.simplify .standard := by
  obtain ⟨hlist, hnames, -⟩ := Groups.ofList_eq_ok h
  rw [← hlist] at hnames
  refine ⟨hlist, ⟨?_, ?_⟩, rfl, ?_⟩
  · intro hall hdisplaced
    obtain ⟨tree, haccepted, hne⟩ := Tree.exists_simplify_simplify_ne (α := Double) rfl hnames
      hdisplaced
    exact hne (hall _ tree haccepted)
  · intro hdisplaced roots tree haccepted
    exact tree.simplify_simplify_of_not_displaced hnames
      (Tree.name_ne_remainderName haccepted) hdisplaced
  · intro tree
    refine tree.simplify_simplify_of_empty (by decide) ?_
    intro g hg hlost
    exact absurd hlost (by revert g; decide)

/-- The second group is displaced: the first one lists its name, but leaves it the locks. -/
def displacedGroups : List Group := [⟨"work", ["sync", "mem"]⟩, ⟨"sync", ["mem", "futex"]⟩]

/-- The first group lists the second one, and leaves it nothing that a root can be called. -/
def coveredGroups : List Group := [⟨"work", ["sync", "mem"]⟩, ⟨"sync", ["mem", "other"]⟩]

theorem simplify_simplify_coveredGroups :
    (Groups.ofList coveredGroups : Except (TreeError Double) Groups) = .ok ⟨coveredGroups⟩
      ∧ (∀ (roots : List (Node Double)) (tree : Tree Double), Tree.ofRoots roots = .ok tree →
          (tree.simplify ⟨coveredGroups⟩).simplify ⟨coveredGroups⟩ = tree.simplify ⟨coveredGroups⟩)
      ∧ (Groups.ofList displacedGroups : Except (TreeError Double) Groups) = .ok ⟨displacedGroups⟩
      ∧ ¬ ∀ (roots : List (Node Double)) (tree : Tree Double), Tree.ofRoots roots = .ok tree →
          (tree.simplify ⟨displacedGroups⟩).simplify ⟨displacedGroups⟩
            = tree.simplify ⟨displacedGroups⟩ := by
  have hcovered : (Groups.ofList coveredGroups : Except (TreeError Double) Groups)
      = .ok ⟨coveredGroups⟩ := rfl
  have hdisplaced : (Groups.ofList displacedGroups : Except (TreeError Double) Groups)
      = .ok ⟨displacedGroups⟩ := rfl
  refine ⟨hcovered, (simplify_simplify_iff hcovered).2.1.2 ?_, hdisplaced,
    fun hall => (simplify_simplify_iff hdisplaced).2.1.1 hall ?_⟩
  · rintro ⟨earlier, g, later, hlist, ⟨e, he, -⟩, member, hmember, hname, hfree⟩
    match earlier with
    | [] => cases he
    | [work] =>
        obtain ⟨rfl, rfl, -⟩ : work = ⟨"work", ["sync", "mem"]⟩ ∧ g = ⟨"sync", ["mem", "other"]⟩
            ∧ later = [] := by simpa [coveredGroups, eq_comm] using hlist
        have hcases : member = "mem" ∨ member = "other" := by simpa using hmember
        rcases hcases with rfl | rfl
        · exact (hfree _ (List.mem_singleton_self _)).2 (by decide)
        · exact hname rfl
    | _ :: _ :: _ => simp [coveredGroups] at hlist
  · exact ⟨[⟨"work", ["sync", "mem"]⟩], ⟨"sync", ["mem", "futex"]⟩, [], rfl, by decide, "futex",
      by decide⟩

end CycleAccounting
