import CycleAccounting.Proofs.Ledger
import CycleAccounting.Proofs.Lineage
import CycleAccounting.Proofs.Names
import Mathlib.Algebra.BigOperators.Ring.List

/-!
# What a stack shows

`Tree.stack` forms the remainder of a branch before it measures the branch, and may then drop both.
This file proves that what comes out is described place by place (`Lineage`): a stack shows what
the kept places show, in the order of the tree (`entries_stack_true`), and without collapsing all
leaves (`entries_stack_false`).

Every subtotal is the sum of the cycles below (`total_stack`), so the total depends neither on the
thresholds nor on collapsing.  And for any weight on names, weighing the entries is weighing every
leaf by the name of the place that bears it (`sum_entries_stack`): each leaf is counted in exactly
one place, or in a remainder that cancels.
-/

namespace CycleAccounting

lemma Source.value_eq (lookup : String → ℚ) (source : Source) :
    source.value lookup = (source.keys.map lookup).sum := by
  cases source <;> simp [Source.value, Source.keys]

/-! ## Putting siblings together -/

namespace Stack

lemma isShown_false (subtotal : ℚ) (part : ℚ × Stack ℚ) : isShown false subtotal part = true := rfl

lemma isShown_true (subtotal : ℚ) (part : ℚ × Stack ℚ) :
    isShown true subtotal part = decide (part.1 * subtotal ≤ part.2.total) := by
  rw [Bool.eq_iff_iff, decide_eq_true_iff]
  exact Amount.atMost_iff _ _

/-- A remainder is shown unless it is zero. -/
def remainderEntries (parent : Option String) (remainder : ℚ) : List (String × ℚ) :=
  if remainder = 0 then [] else [(path parent remainderName, remainder)]

lemma entries_combine (collapse : Bool) (parent : Option String) (parts : List (ℚ × Stack ℚ)) :
    (combine collapse parent parts).entries
      = (parts.filter (isShown collapse (subtotal parts))).flatMap (·.2.entries)
        ++ remainderEntries parent
          (((parts.filter fun part => !isShown collapse (subtotal parts) part).map
            (·.2.total)).sum) := by
  have hzero (x : ℚ) : (if Amount.equal x 0 then [] else [(path parent remainderName, x)])
      = remainderEntries parent x := by
    rw [remainderEntries]
    simp only [Amount.equal_iff]
  rw [combine, List.partition_eq_filter_filter]
  dsimp only
  rw [hzero, ← List.sum_eq_foldl]
  rfl

end Stack

namespace Node

variable (lookup : String → ℚ)

/-! ## Totals -/

mutual

/-- **Subtotals are sums of cycles**, whether or not anything is collapsed. -/
theorem total_stack (collapse : Bool) (parent : Option String) :
    ∀ n : Node ℚ, (n.stack collapse lookup parent).total = n.cycles lookup
  | .leaf _ _ source => source.value_eq lookup
  | .branch name _ children => subtotal_parts collapse (some (path parent name)) children

theorem subtotal_parts (collapse : Bool) (parent : Option String) :
    ∀ ns : List (Node ℚ),
      Stack.subtotal (parts collapse lookup parent ns) = ((keysOfAll ns).map lookup).sum
  | [] => by simp [parts, Stack.subtotal, keysOfAll]
  | n :: rest => by
      have ih := subtotal_parts collapse parent rest
      rw [Stack.subtotal, Amount.sum_eq] at ih ⊢
      rw [parts, List.map_cons, List.sum_cons, ih, keysOfAll, List.map_append, List.sum_append,
        total_stack collapse parent n]
      rfl

end

lemma isShown_stack_iff (subtotal : ℚ) (parent : Option String) (n : Node ℚ) :
    Stack.isShown true subtotal (n.threshold, n.stack true lookup parent) = true
      ↔ n.threshold * subtotal ≤ n.cycles lookup := by
  rw [Stack.isShown_true, decide_eq_true_iff, total_stack]

/-- The cycles of those siblings that do not reach their thresholds of a subtotal. -/
def hidden (subtotal : ℚ) (ns : List (Node ℚ)) : ℚ :=
  ((ns.filter fun n => ¬ n.threshold * subtotal ≤ n.cycles lookup).map (·.cycles lookup)).sum

lemma sum_hidden_parts (parent : Option String) (subtotal : ℚ) (ns : List (Node ℚ)) :
    (((parts true lookup parent ns).filter fun part => !Stack.isShown true subtotal part).map
      (·.2.total)).sum = hidden lookup subtotal ns := by
  induction ns with
  | nil => rfl
  | cons n rest ih =>
      rw [parts, hidden]
      have hshown := isShown_stack_iff lookup subtotal parent n
      by_cases h : n.threshold * subtotal ≤ n.cycles lookup
      · rw [List.filter_cons_of_neg (by simp [hshown.2 h]),
          List.filter_cons_of_neg (by simpa using h), ih]
        rfl
      · have hhidden := Bool.eq_false_iff.2 (mt hshown.1 h)
        rw [List.filter_cons_of_pos (by simp [hhidden]),
          List.filter_cons_of_pos (by simpa using h), List.map_cons, List.sum_cons, List.map_cons,
          List.sum_cons, ih, total_stack]
        rfl

end Node

/-! ## Without collapsing -/

/-- Without collapsing all siblings are shown, and nothing remains. -/
lemma Stack.entries_combine_false (parent : Option String) (parts : List (ℚ × Stack ℚ)) :
    (combine false parent parts).entries = parts.flatMap (·.2.entries) := by
  have hall : parts.filter (isShown false (subtotal parts)) = parts :=
    List.filter_eq_self.2 fun part _ => isShown_false _ part
  have hnone : parts.filter (fun part => !isShown false (subtotal parts) part) = [] :=
    List.filter_eq_nil_iff.2 fun part _ => by simp [isShown_false]
  rw [entries_combine, hall, hnone, List.map_nil, List.sum_nil, remainderEntries, if_pos rfl,
    List.append_nil]

namespace Node

mutual

lemma entries_stack_false (lookup : String → ℚ) (above : Lineage ℚ) : ∀ n : Node ℚ,
    (n.stack false lookup above.parentPath).entries
      = ((n.lineages.map (above ++ ·)).filter Lineage.isLeaf).map
          fun l => (l.shownName, l.cycles lookup)
  | .leaf name threshold source => by
      rw [map_lineages_leaf, List.filter_cons_of_pos (Lineage.isLeaf_append_leaf ..),
        List.filter_nil, List.map_singleton, Lineage.shownName_append_leaf, Lineage.cycles_append,
        stack, source.value_eq]
      rfl
  | .branch name threshold children => by
      have ih := entries_parts_false lookup (above ++ [.branch name threshold children]) children
      rw [Lineage.parentPath_append] at ih
      rw [stack, Stack.entries_combine_false, map_lineages_branch, List.filter_append,
        List.filter_cons_of_neg (by simp), List.filter_nil, List.append_nil, ← ih]
      rfl

lemma entries_parts_false (lookup : String → ℚ) (above : Lineage ℚ) : ∀ ns : List (Node ℚ),
    (parts false lookup above.parentPath ns).flatMap (·.2.entries)
      = (((lineagesOfAll ns).map (above ++ ·)).filter Lineage.isLeaf).map
          fun l => (l.shownName, l.cycles lookup)
  | [] => rfl
  | n :: rest => by
      rw [parts, List.flatMap_cons, entries_stack_false lookup above n,
        entries_parts_false lookup above rest, lineagesOfAll, List.map_append, List.filter_append,
        List.map_append]

end

/-! ## With collapsing -/

section Collapsed

variable (tree : Tree ℚ) (lookup : String → ℚ)

/-- The remainder of a kept place is what its hidden children have. -/
lemma remainder_eq_hidden {l : Lineage ℚ} (h : tree.Kept lookup l) :
    tree.remainder lookup l = hidden lookup (tree.cyclesAt lookup l) (tree.childrenAt l) := by
  rw [Tree.remainder, hidden]
  simp only [tree.kept_append_iff lookup h]

/-- What is shown in a kept place that is not a leaf's, behind what is shown below it. -/
lemma remainderEntries_eq {l : Lineage ℚ} (h : tree.Kept lookup l) (hleaf : l.isLeaf = false) :
    Stack.remainderEntries l.parentPath
        (hidden lookup (tree.cyclesAt lookup l) (tree.childrenAt l))
      = (tree.shownAt? lookup l).toList := by
  have hname : l.shownName = path l.parentPath remainderName := by
    rw [Lineage.shownName, hleaf, if_neg Bool.false_ne_true]
  rw [← remainder_eq_hidden tree lookup h, Stack.remainderEntries, Tree.shownAt?, hleaf,
    if_neg Bool.false_ne_true, hname]
  split_ifs <;> rfl

/-- Where a node is not kept, nothing below it is. -/
lemma filter_kept_eq_nil {above : Lineage ℚ} {n : Node ℚ}
    (h : ¬ tree.Kept lookup (above ++ [n])) :
    (n.lineages.map (above ++ ·)).filter (tree.Kept lookup) = [] := by
  refine List.filter_eq_nil_iff.2 ?_
  intro l hl
  obtain ⟨_, hm, rfl⟩ := List.mem_map.1 hl
  obtain ⟨below, rfl⟩ := eq_cons_of_mem_lineages hm
  rw [decide_eq_true_iff, List.append_cons]
  exact fun hkept => h (tree.kept_of_append lookup hkept)

mutual

/-- **A kept node shows what the kept places of its lineages show.** -/
lemma entries_stack_true (above : Lineage ℚ) : ∀ n : Node ℚ, tree.Kept lookup (above ++ [n]) →
    (n.stack true lookup above.parentPath).entries
      = ((n.lineages.map (above ++ ·)).filter (tree.Kept lookup)).filterMap (tree.shownAt? lookup)
  | .leaf name threshold source, h => by
      rw [map_lineages_leaf, List.filter_cons_of_pos (by simpa using h), List.filter_nil,
        List.filterMap_cons, Tree.shownAt?, if_pos (Lineage.isLeaf_append_leaf ..),
        Lineage.shownName_append_leaf, Lineage.cycles_append, stack, source.value_eq]
      rfl
  | .branch name threshold children, h => by
      have ih := entries_parts_true (above ++ [.branch name threshold children]) children h
      have hown := remainderEntries_eq tree lookup h (Lineage.isLeaf_append_branch ..)
      rw [Lineage.parentPath_append, tree.cyclesAt_append] at ih hown
      rw [tree.childrenAt_append] at hown
      rw [stack, Stack.entries_combine, subtotal_parts, sum_hidden_parts, map_lineages_branch,
        List.filter_append, List.filter_cons_of_pos (by simpa using h), List.filter_nil,
        List.filterMap_append, ← ih]
      exact congrArg _ hown

lemma entries_parts_true (above : Lineage ℚ) : ∀ ns : List (Node ℚ), tree.Kept lookup above →
    ((parts true lookup above.parentPath ns).filter
        (Stack.isShown true (tree.cyclesAt lookup above))).flatMap (·.2.entries)
      = (((lineagesOfAll ns).map (above ++ ·)).filter (tree.Kept lookup)).filterMap
          (tree.shownAt? lookup)
  | [], _ => rfl
  | n :: rest, h => by
      have ih := entries_parts_true above rest h
      have hshown : Stack.isShown true (tree.cyclesAt lookup above)
            (n.threshold, n.stack true lookup above.parentPath) = true
          ↔ tree.Kept lookup (above ++ [n]) := by
        rw [isShown_stack_iff, tree.kept_append_iff lookup h n]
      -- The stack of `n` has its own remainder already; whether it counts is decided only here.
      rw [parts, lineagesOfAll, List.map_append, List.filter_append, List.filterMap_append, ← ih]
      by_cases hn : tree.Kept lookup (above ++ [n])
      · rw [List.filter_cons_of_pos (hshown.2 hn), List.flatMap_cons,
          entries_stack_true above n hn]
      · rw [List.filter_cons_of_neg (mt hshown.1 hn), filter_kept_eq_nil tree lookup hn]
        rfl

end

end Collapsed

end Node

/-! ## Where the cycles of a leaf go -/

namespace Node

mutual

/-- The cycles of a node are those of the leaves that its lineages lead to. -/
lemma sum_cycles_lineages (lookup : String → ℚ) (above : Lineage ℚ) : ∀ n : Node ℚ,
    (((n.lineages.map (above ++ ·)).filter Lineage.isLeaf).map (·.cycles lookup)).sum
      = n.cycles lookup
  | .leaf name threshold source => by
      rw [map_lineages_leaf, List.filter_cons_of_pos (Lineage.isLeaf_append_leaf ..),
        List.filter_nil, List.map_singleton, List.sum_singleton, Lineage.cycles_append]
  | .branch name threshold children => by
      rw [map_lineages_branch, List.filter_append, List.filter_cons_of_neg (by simp),
        List.filter_nil, List.append_nil, sum_cycles_lineagesOfAll lookup _ children]
      rfl

lemma sum_cycles_lineagesOfAll (lookup : String → ℚ) (above : Lineage ℚ) : ∀ ns : List (Node ℚ),
    ((((lineagesOfAll ns).map (above ++ ·)).filter Lineage.isLeaf).map (·.cycles lookup)).sum
      = ((keysOfAll ns).map lookup).sum
  | [] => rfl
  | n :: rest => by
      rw [lineagesOfAll, List.map_append, List.filter_append, List.map_append, List.sum_append,
        sum_cycles_lineages lookup above n, sum_cycles_lineagesOfAll lookup above rest, keysOfAll,
        List.map_append, List.sum_append]
      rfl

end

section Weighed

variable (tree : Tree ℚ) (lookup : String → ℚ) (f : String → ℚ)

/-- The cycles of the leaves among some lineages, each with the weight of the name of the place
that bears it. -/
def borne (ls : List (Lineage ℚ)) : ℚ :=
  ((ls.filter Lineage.isLeaf).map fun l =>
    f (tree.bearer lookup l).shownName * l.cycles lookup).sum

lemma borne_append (ls ms : List (Lineage ℚ)) :
    borne tree lookup f (ls ++ ms) = borne tree lookup f ls + borne tree lookup f ms := by
  rw [borne, List.filter_append, List.map_append, List.sum_append]
  rfl

lemma borne_singleton_of_not_isLeaf {l : Lineage ℚ} (h : l.isLeaf = false) :
    borne tree lookup f [l] = 0 := by
  rw [borne, List.filter_cons_of_neg (by simpa using h)]
  rfl

/-- A node that is not kept leaves all its cycles to the place it is below. -/
lemma borne_of_not_kept {above : Lineage ℚ} {n : Node ℚ} (h : tree.Kept lookup above)
    (hn : ¬ tree.Kept lookup (above ++ [n])) :
    borne tree lookup f (n.lineages.map (above ++ ·)) = f above.shownName * n.cycles lookup := by
  rw [← sum_cycles_lineages lookup above n, ← List.sum_map_mul_left, borne]
  refine congrArg List.sum (List.map_congr_left ?_)
  intro l hl
  obtain ⟨_, hm, rfl⟩ := List.mem_map.1 (List.mem_of_mem_filter hl)
  obtain ⟨below, rfl⟩ := eq_cons_of_mem_lineages hm
  rw [Tree.bearer, Lineage.bearer_append h hn]

lemma weigh_shownAt? {l : Lineage ℚ} (hleaf : l.isLeaf = false) :
    weigh f (tree.shownAt? lookup l).toList = f l.shownName * tree.remainder lookup l := by
  rw [Tree.shownAt?, hleaf, if_neg Bool.false_ne_true]
  split_ifs with hzero
  · rw [hzero, mul_zero]
    rfl
  · exact add_zero _

mutual

/-- What a kept node shows weighs as much as the leaves below it. -/
lemma weigh_lineages (above : Lineage ℚ) : ∀ n : Node ℚ, tree.Kept lookup (above ++ [n]) →
    weigh f (((n.lineages.map (above ++ ·)).filter (tree.Kept lookup)).filterMap
        (tree.shownAt? lookup))
      = borne tree lookup f (n.lineages.map (above ++ ·))
  | .leaf name threshold source, h => by
      have hleaf := Lineage.isLeaf_append_leaf above name threshold source
      rw [map_lineages_leaf, List.filter_cons_of_pos (by simpa using h), List.filter_nil,
        List.filterMap_cons, Tree.shownAt?, if_pos hleaf, borne, List.filter_cons_of_pos hleaf,
        List.filter_nil, List.map_singleton, tree.bearer_of_kept lookup h]
      rfl
  | .branch name threshold children, h => by
      have hleaf := Lineage.isLeaf_append_branch above name threshold children
      have ih := weigh_lineagesOfAll (above ++ [.branch name threshold children]) children h
      rw [map_lineages_branch, List.filter_append, List.filter_cons_of_pos (by simpa using h),
        List.filter_nil, List.filterMap_append, weigh_append, borne_append,
        borne_singleton_of_not_isLeaf tree lookup f hleaf, ← ih, add_zero]
      have hown := weigh_shownAt? tree lookup f hleaf
      rw [Tree.remainder, tree.childrenAt_append] at hown
      exact congrArg _ hown

/-- Siblings below a kept place weigh as much as the leaves below them, if those that are not kept
are weighed by the name of that place. -/
lemma weigh_lineagesOfAll (above : Lineage ℚ) : ∀ ns : List (Node ℚ), tree.Kept lookup above →
    weigh f ((((lineagesOfAll ns).map (above ++ ·)).filter (tree.Kept lookup)).filterMap
        (tree.shownAt? lookup))
      + f above.shownName
        * ((ns.filter fun n => ¬ tree.Kept lookup (above ++ [n])).map (·.cycles lookup)).sum
      = borne tree lookup f ((lineagesOfAll ns).map (above ++ ·))
  | [], _ => by simp [lineagesOfAll, weigh, borne]
  | n :: rest, h => by
      have ih := weigh_lineagesOfAll above rest h
      rw [lineagesOfAll, List.map_append, List.filter_append, List.filterMap_append, weigh_append,
        borne_append, ← ih]
      by_cases hn : tree.Kept lookup (above ++ [n])
      · rw [List.filter_cons_of_neg (by simpa using hn), weigh_lineages above n hn, add_assoc]
      · rw [List.filter_cons_of_pos (by simpa using hn), List.map_cons, List.sum_cons,
          borne_of_not_kept tree lookup f h hn, filter_kept_eq_nil tree lookup hn]
        simp only [List.filterMap_nil, weigh, List.map_nil, List.sum_nil]
        ring

end

end Weighed

end Node

/-! ## Trees -/

namespace Tree

variable (tree : Tree ℚ) (lookup : String → ℚ)

/-- **The total is the sum of all that the tree reads.**  No threshold and no collapsing changes
it. -/
theorem total_stack (collapse : Bool) : (tree.stack collapse lookup).total = tree.cycles lookup :=
  Node.subtotal_parts lookup collapse none tree.roots

/-- **Without collapsing a tree shows its leaves**, each with the cycles it reads. -/
theorem entries_stack_false : (tree.stack false lookup).entries
    = tree.leaves.map fun l => (l.fullPath, l.cycles lookup) := by
  have h := Node.entries_parts_false lookup [] tree.roots
  rw [Lineage.map_nil_append] at h
  rw [stack, Stack.entries_combine_false]
  refine h.trans ?_
  rw [leaves_eq]
  refine List.map_congr_left ?_
  intro l hl
  rw [Lineage.shownName, if_pos (List.of_mem_filter hl)]

/-- **With collapsing a tree shows what its kept places show.** -/
theorem entries_stack_true : (tree.stack true lookup).entries
    = (tree.places.filter (tree.Kept lookup)).filterMap (tree.shownAt? lookup) := by
  have hkept : tree.Kept lookup [] := trivial
  have h := Node.entries_parts_true tree lookup [] tree.roots hkept
  have hown := Node.remainderEntries_eq tree lookup hkept rfl
  rw [stack, Stack.entries_combine, Node.subtotal_parts, Node.sum_hidden_parts, places,
    List.filter_append, List.filterMap_append, List.filter_cons_of_pos (by simpa using hkept)]
  rw [Lineage.map_nil_append] at h
  rw [← h]
  -- Only the remainder of the whole tree is left to compare.
  exact congrArg _ hown

/-- **Every leaf counts in one entry**: for any weight on names, the entries weigh what the leaves
weigh by the names of their bearers. -/
theorem weigh_entries (f : String → ℚ) : weigh f (tree.stack true lookup).entries
    = (tree.leaves.map fun l => f (tree.bearer lookup l).shownName * l.cycles lookup).sum := by
  have hkept : tree.Kept lookup [] := trivial
  have h := Node.weigh_lineagesOfAll tree lookup f [] tree.roots hkept
  have hown : weigh f (tree.shownAt? lookup []).toList
      = f (Lineage.shownName ([] : Lineage ℚ)) * tree.remainder lookup [] :=
    Node.weigh_shownAt? tree lookup f rfl
  rw [Lineage.map_nil_append] at h
  rw [entries_stack_true, places, List.filter_append, List.filterMap_append, weigh_append,
    List.filter_cons_of_pos (by simpa using hkept), leaves_eq]
  refine Eq.trans ?_ h
  exact congrArg _ hown

/-- **The entries of a stack add up to its total**, thresholds, collapsing and signs aside. -/
theorem sum_entries (collapse : Bool) :
    ((tree.stack collapse lookup).entries.map (·.2)).sum = tree.cycles lookup := by
  have hleaves : (tree.leaves.map (·.cycles lookup)).sum = tree.cycles lookup := by
    have h := Node.sum_cycles_lineagesOfAll lookup [] tree.roots
    rw [Lineage.map_nil_append] at h
    rw [leaves_eq, h]
    rfl
  cases collapse with
  | false =>
      rw [entries_stack_false, List.map_map]
      exact hleaves
  | true =>
      rw [← weigh_one, weigh_entries, ← hleaves]
      simp only [one_mul]

end Tree

/-! ## What an accepted tree shows -/

/-- **The stack of a core, described place by place.**  Without collapsing it shows exactly the
leaves; with collapsing, exactly what the kept places show.  Either way no name is shown twice, the
entries add up to the total, and the total is the sum of what the tree reads.  With collapsing, the
value of a name is the sum of the leaves whose bearer shows that name: no leaf is lost, and none is
counted twice. -/
theorem shown_stackOf {roots : List (Node ℚ)} {tree : Tree ℚ} (h : Tree.ofRoots roots = .ok tree)
    (books : Books ℚ) (core : Nat) :
    tree.roots = roots
      ∧ (tree.stackOf false books core).entries
          = tree.leaves.map (fun l => (l.fullPath, l.cycles (books.amount core)))
      ∧ (tree.stackOf true books core).entries
          = (tree.places.filter (tree.Kept (books.amount core))).filterMap
              (tree.shownAt? (books.amount core))
      ∧ (∀ collapse, (tree.stackOf collapse books core).names.Nodup
          ∧ (tree.stackOf collapse books core).total = (tree.keys.map (books.amount core)).sum
          ∧ ((tree.stackOf collapse books core).entries.map (·.2)).sum
              = (tree.stackOf collapse books core).total)
      ∧ ∀ name, ((tree.stackOf true books core).get? name).getD 0
          = ((tree.leaves.filter fun l =>
                (tree.bearer (books.amount core) l).shownName = name).map
              (·.cycles (books.amount core))).sum := by
  obtain ⟨hroots, hnames⟩ := Tree.ofRoots_eq_ok h
  have hnodup (collapse : Bool) : (tree.stackOf collapse books core).names.Nodup :=
    (tree.names_stack_sublist _ collapse).nodup hnames
  refine ⟨hroots, tree.entries_stack_false _, tree.entries_stack_true _, ?_, ?_⟩
  · intro collapse
    have htotal := tree.total_stack (books.amount core) collapse
    exact ⟨hnodup collapse, htotal, (tree.sum_entries _ collapse).trans htotal.symm⟩
  · intro name
    rw [Stack.get?, ← weigh_picking (hnodup true) name, Tree.stackOf, Tree.weigh_entries]
    simp only [picking, ite_mul, one_mul, zero_mul]
    rw [List.sum_map_ite]
    simp

/-- Caches that are to reach half of what all caches have, and locks that are to reach half of
everything. -/
def foldedRoots : List (Node ℚ) :=
  [.leaf "base" (1 / 100) (.sum ["Base", "Issue"]),
   .branch "mem" (1 / 100)
     [.leaf "l1" (1 / 2) (.category "L1"),
      .leaf "l2" (1 / 2) (.category "L2"),
      .leaf "l3" (1 / 2) (.category "L3")],
   .branch "sync" (1 / 2) [.leaf "futex" 0 (.category "Futex")]]

/-- One core, with opposite amounts in its second and third cache. -/
def foldedBooks : Books ℚ :=
  ⟨[((((Catalog.empty.insert "Base" 90).insert "L1" 8).insert "L2" 1).insert "L3" (-1)).insert
    "Futex" 2]⟩

theorem shown_foldedRoots :
    Tree.ofRoots foldedRoots = .ok ⟨foldedRoots⟩
      ∧ (Tree.stackOf ⟨foldedRoots⟩ true foldedBooks 0).entries
          = [("base", 90), ("mem-l1", 8), ("other", 2)]
      ∧ (Tree.stackOf ⟨foldedRoots⟩ false foldedBooks 0).entries
          = [("base", 90), ("mem-l1", 8), ("mem-l2", 1), ("mem-l3", -1), ("sync-futex", 2)] := by
  have hnodes : Node.offenceOfAll? Tree.rootName [] foldedRoots = none :=
    Option.isNone_iff_eq_none.1 (by decide +kernel)
  have hnames : Tree.firstRepeated? [] (Tree.names ⟨foldedRoots⟩) = none := by decide +kernel
  have haccepted : Tree.ofRoots foldedRoots = .ok ⟨foldedRoots⟩ := by
    rw [Tree.ofRoots, hnodes]
    dsimp only
    rw [hnames]
  obtain ⟨-, hleaves, hkept, -⟩ := shown_stackOf haccepted foldedBooks 0
  rw [hleaves, hkept]
  refine ⟨haccepted, ?_, ?_⟩ <;> decide +kernel

end CycleAccounting
