import CycleAccounting.Proofs.Stack
import Mathlib.Algebra.Order.BigOperators.Group.List
import Mathlib.Data.List.Forall2

/-!
# Raising thresholds

One tree relaxes another if they are the same up to their thresholds and none of its thresholds is
higher.  Where no category that is read is negative, every place that is kept under the stricter
thresholds is kept under the relaxed ones (`kept_of_relaxes`): a higher threshold asks for more of
the same subtotal, and so does every one above it.

So raising thresholds moves cycles from named entries into remainders and never back.
**`relaxed_stackOf`** says this of the stacks of a core: the named entries of the stricter one are
among those of the other, and the remainders that it still has room for are at least as large.
-/

namespace CycleAccounting

/-! ## Relaxed trees -/

/-- The same nodes up to thresholds, those of the first one nowhere higher. -/
inductive Node.Relaxes : Node ℚ → Node ℚ → Prop
  | leaf {name : String} {source : Source} {threshold threshold' : ℚ} (h : threshold ≤ threshold') :
      Relaxes (.leaf name threshold source) (.leaf name threshold' source)
  | branch {name : String} {threshold threshold' : ℚ} {children children' : List (Node ℚ)}
      (h : threshold ≤ threshold') (hchildren : List.Forall₂ Relaxes children children') :
      Relaxes (.branch name threshold children) (.branch name threshold' children')

/-- The same tree up to thresholds, those of the first one nowhere higher. -/
def Tree.Relaxes (loose strict : Tree ℚ) : Prop :=
  List.Forall₂ Node.Relaxes loose.roots strict.roots

/-- The same places up to thresholds. -/
abbrev Lineage.Relaxes (l l' : Lineage ℚ) : Prop := List.Forall₂ Node.Relaxes l l'

namespace Node

variable {n n' : Node ℚ}

lemma Relaxes.name_eq (h : n.Relaxes n') : n.name = n'.name := by cases h <;> rfl

lemma Relaxes.threshold_le (h : n.Relaxes n') : n.threshold ≤ n'.threshold := by
  cases h <;> assumption

lemma Relaxes.children (h : n.Relaxes n') : List.Forall₂ Relaxes n.children n'.children := by
  cases h with
  | leaf => exact .nil
  | branch _ hchildren => exact hchildren

mutual

/-- What is read does not depend on thresholds. -/
lemma Relaxes.keys_eq : ∀ {n n' : Node ℚ}, n.Relaxes n' → n.keys = n'.keys
  | .leaf .., _, .leaf _ => rfl
  | .branch .., _, .branch _ hchildren => keysOfAll_eq_of_relaxes hchildren

lemma keysOfAll_eq_of_relaxes : ∀ {ns ns' : List (Node ℚ)},
    List.Forall₂ Relaxes ns ns' → keysOfAll ns = keysOfAll ns'
  | [], _, .nil => rfl
  | _ :: _, _, .cons h hrest => by
      rw [keysOfAll, keysOfAll, h.keys_eq, keysOfAll_eq_of_relaxes hrest]

end

lemma Relaxes.cycles_eq (h : n.Relaxes n') (lookup : String → ℚ) :
    n.cycles lookup = n'.cycles lookup := by
  rw [cycles, cycles, h.keys_eq]

mutual

/-- Every lineage of a node is one of the relaxed node, up to thresholds. -/
lemma Relaxes.exists_lineage : ∀ {n n' : Node ℚ}, n.Relaxes n' → ∀ {l' : Lineage ℚ},
    l' ∈ n'.lineages → ∃ l ∈ n.lineages, Lineage.Relaxes l l'
  | .leaf .., _, .leaf h, l', hl' => by
      obtain rfl := List.mem_singleton.1 hl'
      exact ⟨_, List.mem_singleton_self _, .cons (.leaf h) .nil⟩
  | .branch .., _, .branch h hchildren, l', hl' => by
      rw [lineages, List.mem_append, List.mem_map, List.mem_singleton] at hl'
      rcases hl' with ⟨below', hbelow', rfl⟩ | rfl
      · obtain ⟨below, hbelow, hrelaxes⟩ := exists_lineage_of_all hchildren hbelow'
        exact ⟨_, List.mem_append_left _ (List.mem_map_of_mem hbelow),
          .cons (.branch h hchildren) hrelaxes⟩
      · exact ⟨_, List.mem_append_right _ (List.mem_singleton_self _),
          .cons (.branch h hchildren) .nil⟩

lemma exists_lineage_of_all : ∀ {ns ns' : List (Node ℚ)}, List.Forall₂ Relaxes ns ns' →
    ∀ {l' : Lineage ℚ}, l' ∈ lineagesOfAll ns' → ∃ l ∈ lineagesOfAll ns, Lineage.Relaxes l l'
  | [], _, .nil, _, hl' => by cases hl'
  | _ :: _, _, .cons h hrest, l', hl' => by
      rcases List.mem_append.1 hl' with hl' | hl'
      · obtain ⟨l, hl, hrelaxes⟩ := h.exists_lineage hl'
        exact ⟨l, List.mem_append_left _ hl, hrelaxes⟩
      · obtain ⟨l, hl, hrelaxes⟩ := exists_lineage_of_all hrest hl'
        exact ⟨l, List.mem_append_right _ hl, hrelaxes⟩

end

mutual

/-- Whatever a node on a lineage reads, the first one reads. -/
lemma keys_subset_of_mem_lineages : ∀ {n : Node ℚ} {l : Lineage ℚ}, l ∈ n.lineages →
    ∀ m ∈ l, m.keys ⊆ n.keys
  | .leaf .., l, hl, m, hm => by
      obtain rfl := List.mem_singleton.1 hl
      rw [List.mem_singleton.1 hm]
      exact List.Subset.refl _
  | .branch .., l, hl, m, hm => by
      rw [lineages, List.mem_append, List.mem_map, List.mem_singleton] at hl
      rcases hl with ⟨below, hbelow, rfl⟩ | rfl
      · rcases List.mem_cons.1 hm with rfl | hm
        · exact List.Subset.refl _
        · exact keys_subset_of_mem_lineagesOfAll hbelow m hm
      · rw [List.mem_singleton.1 hm]
        exact List.Subset.refl _

lemma keys_subset_of_mem_lineagesOfAll : ∀ {ns : List (Node ℚ)} {l : Lineage ℚ},
    l ∈ lineagesOfAll ns → ∀ m ∈ l, m.keys ⊆ keysOfAll ns
  | [], _, hl, _, _ => by cases hl
  | _ :: _, l, hl, m, hm => by
      rcases List.mem_append.1 hl with hl | hl
      · exact List.subset_append_of_subset_left _ (keys_subset_of_mem_lineages hl m hm)
      · exact List.subset_append_of_subset_right _ (keys_subset_of_mem_lineagesOfAll hl m hm)

end

lemma keys_subset_keysOfAll {n : Node ℚ} {ns : List (Node ℚ)} (h : n ∈ ns) :
    n.keys ⊆ keysOfAll ns := by
  induction ns with
  | nil => cases h
  | cons m rest ih =>
      rcases List.mem_cons.1 h with rfl | h
      · exact List.subset_append_left _ _
      · exact List.subset_append_of_subset_right _ (ih h)

lemma keysOfAll_children_subset (n : Node ℚ) : keysOfAll n.children ⊆ n.keys := by
  cases n with
  | leaf => exact List.nil_subset _
  | branch => exact List.Subset.refl _

/-- A node that reads nothing negative has nothing negative. -/
lemma cycles_nonneg {lookup : String → ℚ} {n : Node ℚ} (h : ∀ k ∈ n.keys, 0 ≤ lookup k) :
    0 ≤ n.cycles lookup := by
  refine List.sum_nonneg ?_
  simpa using h

/-- More children are hidden under higher thresholds, and none of them is negative. -/
lemma hidden_le_hidden {lookup : String → ℚ} {subtotal : ℚ} (hsubtotal : 0 ≤ subtotal)
    {ns ns' : List (Node ℚ)} (h : List.Forall₂ Relaxes ns ns')
    (hnonneg : ∀ n ∈ ns, 0 ≤ n.cycles lookup) :
    hidden lookup subtotal ns ≤ hidden lookup subtotal ns' := by
  induction h with
  | nil => exact le_refl _
  | @cons n n' rest rest' hn hrest ih =>
      obtain ⟨hzero, hnonneg⟩ := List.forall_mem_cons.1 hnonneg
      have hcons (m : Node ℚ) (ms : List (Node ℚ)) : hidden lookup subtotal (m :: ms)
          = (if m.threshold * subtotal ≤ m.cycles lookup then 0 else m.cycles lookup)
            + hidden lookup subtotal ms := by
        rw [hidden, List.filter_cons]
        split_ifs <;> simp_all [hidden]
      have hmore := mul_le_mul_of_nonneg_right hn.threshold_le hsubtotal
      rw [hcons, hcons, ← hn.cycles_eq]
      refine add_le_add ?_ (ih hnonneg)
      split_ifs with hloose hstrict hstrict
      · exact le_refl _
      · exact hzero
      · exact absurd (hmore.trans hstrict) hloose
      · exact le_refl _

end Node

/-! ## Relaxed places -/

namespace Lineage

variable {l l' : Lineage ℚ}

lemma Relaxes.fullPath_eq (h : Relaxes l l') : l.fullPath = l'.fullPath := by
  have hnames : l.map Node.name = l'.map Node.name := by
    induction h with
    | nil => rfl
    | cons hn _ ih => rw [List.map_cons, List.map_cons, hn.name_eq, ih]
  rw [fullPath, fullPath, hnames]

/-- Both places are the whole tree, or end in nodes that are the same up to thresholds. -/
lemma Relaxes.last (h : Relaxes l l') : (l = [] ∧ l' = [])
    ∨ ∃ above above' n n', l = above ++ [n] ∧ l' = above' ++ [n'] ∧ n.Relaxes n' := by
  induction h with
  | nil => exact .inl ⟨rfl, rfl⟩
  | @cons n n' _ _ hn _ ih =>
      rcases ih with ⟨rfl, rfl⟩ | ⟨above, above', m, m', rfl, rfl, hm⟩
      · exact .inr ⟨[], [], n, n', rfl, rfl, hn⟩
      · exact .inr ⟨n :: above, n' :: above', m, m', rfl, rfl, hm⟩

lemma Relaxes.isLeaf_eq (h : Relaxes l l') : l.isLeaf = l'.isLeaf := by
  rcases h.last with ⟨rfl, rfl⟩ | ⟨above, above', n, n', rfl, rfl, hn⟩
  · rfl
  · cases hn with
    | leaf => rw [isLeaf_append_leaf, isLeaf_append_leaf]
    | branch => rw [isLeaf_append_branch, isLeaf_append_branch]

lemma Relaxes.cycles_eq (h : Relaxes l l') (lookup : String → ℚ) :
    l.cycles lookup = l'.cycles lookup := by
  rcases h.last with ⟨rfl, rfl⟩ | ⟨above, above', n, n', rfl, rfl, hn⟩
  · rfl
  · rw [cycles_append, cycles_append, hn.cycles_eq]

lemma Relaxes.shownName_eq (h : Relaxes l l') : l.shownName = l'.shownName := by
  have hparent : l.parentPath = l'.parentPath := by
    rw [parentPath, parentPath, h.fullPath_eq]
    cases h <;> rfl
  rw [shownName, shownName, h.isLeaf_eq, h.fullPath_eq, hparent]

/-- **What is kept under higher thresholds is kept under lower ones**, where nothing is
negative. -/
lemma kept_of_relaxes {lookup : String → ℚ} {subtotal : ℚ} (hsubtotal : 0 ≤ subtotal)
    (h : Relaxes l l') (hnonneg : ∀ n ∈ l, 0 ≤ n.cycles lookup)
    (hkept : l'.Kept lookup subtotal) : l.Kept lookup subtotal := by
  induction h generalizing subtotal with
  | nil => trivial
  | @cons n n' _ _ hn _ ih =>
      obtain ⟨hzero, hnonneg⟩ := List.forall_mem_cons.1 hnonneg
      obtain ⟨hreaches, hbelow⟩ := hkept
      rw [← hn.cycles_eq] at hreaches hbelow
      have hless : n.threshold * subtotal ≤ n'.threshold * subtotal :=
        mul_le_mul_of_nonneg_right hn.threshold_le hsubtotal
      exact ⟨hless.trans hreaches, ih hzero hnonneg hbelow⟩

end Lineage

/-! ## Stacks of relaxed trees -/

namespace Tree

section Shown

variable (tree : Tree ℚ) (lookup : String → ℚ)

lemma mem_entries_iff {e : String × ℚ} : e ∈ (tree.stack true lookup).entries
    ↔ ∃ l ∈ tree.places, tree.Kept lookup l ∧ tree.shownAt? lookup l = some e := by
  rw [entries_stack_true, List.mem_filterMap]
  simp only [List.mem_filter, decide_eq_true_eq, and_assoc]

lemma fst_of_shownAt? {l : Lineage ℚ} {e : String × ℚ} (h : tree.shownAt? lookup l = some e) :
    e.1 = l.shownName := by
  rw [shownAt?] at h
  split_ifs at h <;> cases h <;> rfl

variable {tree}

lemma eq_of_shownName_eq {α : Type} {tree : Tree α} (hnames : tree.names.Nodup) {l m : Lineage α}
    (hl : l ∈ tree.places) (hm : m ∈ tree.places) (h : l.shownName = m.shownName) : l = m := by
  rw [names_eq] at hnames
  exact List.inj_on_of_nodup_map hnames hl hm h

/-- A kept place that is not a leaf's shows its remainder, or nothing if that is zero. -/
lemma getD_shownName (hnames : tree.names.Nodup) {l : Lineage ℚ} (hl : l ∈ tree.places)
    (hleaf : l.isLeaf = false) (hkept : tree.Kept lookup l) :
    ((tree.stack true lookup).get? l.shownName).getD 0 = tree.remainder lookup l := by
  have hshown : tree.shownAt? lookup l = if tree.remainder lookup l = 0 then none
      else some (l.shownName, tree.remainder lookup l) := by
    rw [shownAt?, if_neg (by simp [hleaf])]
  by_cases hzero : tree.remainder lookup l = 0
  · rw [if_pos hzero] at hshown
    have hnone : l.shownName ∉ (tree.stack true lookup).names := by
      rintro hmem
      obtain ⟨e, he, hname⟩ := List.mem_map.1 hmem
      obtain ⟨m, hm, -, hat⟩ := (tree.mem_entries_iff lookup).1 he
      obtain rfl : m = l :=
        eq_of_shownName_eq hnames hm hl ((tree.fst_of_shownAt? lookup hat).symm.trans hname)
      rw [hshown] at hat
      cases hat
    rw [Stack.get?_eq_none hnone, hzero]
    rfl
  · rw [if_neg hzero] at hshown
    have hmem := (tree.mem_entries_iff lookup).2 ⟨l, hl, hkept, hshown⟩
    have hnodup : (tree.stack true lookup).names.Nodup :=
      (tree.names_stack_sublist lookup true).nodup hnames
    rw [(Stack.get?_eq_some_iff hnodup _ _).2 hmem]
    rfl

end Shown

/-! ## What is kept of the entries -/

section Relaxed

variable {tree loose strict : Tree ℚ} {lookup : String → ℚ} {l l' : Lineage ℚ}

lemma Relaxes.keys_eq (h : loose.Relaxes strict) : loose.keys = strict.keys :=
  Node.keysOfAll_eq_of_relaxes h

lemma Relaxes.cycles_eq (h : loose.Relaxes strict) (lookup : String → ℚ) :
    loose.cycles lookup = strict.cycles lookup := by
  rw [cycles, cycles, h.keys_eq]

/-- Every place of the stricter tree is one of the other, up to thresholds. -/
lemma Relaxes.exists_place (h : loose.Relaxes strict) (hl' : l' ∈ strict.places) :
    ∃ l ∈ loose.places, Lineage.Relaxes l l' := by
  rcases List.mem_append.1 hl' with hl' | hl'
  · obtain ⟨l, hl, hrelaxes⟩ := Node.exists_lineage_of_all h hl'
    exact ⟨l, List.mem_append_left _ hl, hrelaxes⟩
  · obtain rfl := List.mem_singleton.1 hl'
    exact ⟨[], List.mem_append_right _ (List.mem_singleton_self _), .nil⟩

lemma keys_subset_of_mem_places (hl : l ∈ tree.places) : ∀ n ∈ l, n.keys ⊆ tree.keys := by
  rcases List.mem_append.1 hl with hl | hl
  · exact Node.keys_subset_of_mem_lineagesOfAll hl
  · rw [List.mem_singleton.1 hl]
    simp

lemma keys_subset_of_mem_childrenAt (hl : l ∈ tree.places) :
    ∀ n ∈ tree.childrenAt l, n.keys ⊆ tree.keys := by
  intro n hn
  rcases List.eq_nil_or_concat l with rfl | ⟨above, m, rfl⟩
  · exact Node.keys_subset_keysOfAll hn
  · rw [List.concat_eq_append] at hl hn
    rw [childrenAt_append] at hn
    have hm : m.keys ⊆ tree.keys := keys_subset_of_mem_places hl m (by simp)
    exact List.Subset.trans (Node.keys_subset_keysOfAll hn)
      (List.Subset.trans m.keysOfAll_children_subset hm)

variable (hnonneg : ∀ k ∈ loose.keys, 0 ≤ lookup k)
include hnonneg

lemma cyclesAt_nonneg (hl : l ∈ loose.places) : 0 ≤ loose.cyclesAt lookup l := by
  rcases List.eq_nil_or_concat l with rfl | ⟨above, n, rfl⟩
  · exact List.sum_nonneg (by simpa using hnonneg)
  · rw [List.concat_eq_append] at hl ⊢
    rw [cyclesAt_append]
    exact Node.cycles_nonneg fun k hk => hnonneg k (keys_subset_of_mem_places hl n (by simp) hk)

lemma Relaxes.kept (h : loose.Relaxes strict) (hl : l ∈ loose.places)
    (hrelaxes : Lineage.Relaxes l l') (hkept : strict.Kept lookup l') : loose.Kept lookup l := by
  have hsubtotal : 0 ≤ loose.cycles lookup := List.sum_nonneg (by simpa using hnonneg)
  refine Lineage.kept_of_relaxes hsubtotal hrelaxes ?_ ?_
  · intro n hn
    exact Node.cycles_nonneg fun k hk => hnonneg k (keys_subset_of_mem_places hl n hn hk)
  · rw [h.cycles_eq]
    exact hkept

/-- **The remainder of a place that is kept either way** is at least as large under higher
thresholds. -/
lemma Relaxes.remainder_le (h : loose.Relaxes strict) (hl : l ∈ loose.places)
    (hrelaxes : Lineage.Relaxes l l') (hkept : strict.Kept lookup l') :
    loose.remainder lookup l ≤ strict.remainder lookup l' := by
  have hcycles : loose.cyclesAt lookup l = strict.cyclesAt lookup l' := by
    rcases hrelaxes.last with ⟨rfl, rfl⟩ | ⟨above, above', n, n', rfl, rfl, hn⟩
    · exact h.cycles_eq lookup
    · rw [cyclesAt_append, cyclesAt_append, hn.cycles_eq]
  have hchildren : List.Forall₂ Node.Relaxes (loose.childrenAt l) (strict.childrenAt l') := by
    rcases hrelaxes.last with ⟨rfl, rfl⟩ | ⟨above, above', n, n', rfl, rfl, hn⟩
    · exact h
    · rw [childrenAt_append, childrenAt_append]
      exact hn.children
  rw [Node.remainder_eq_hidden loose lookup (h.kept hnonneg hl hrelaxes hkept),
    Node.remainder_eq_hidden strict lookup hkept, ← hcycles]
  refine Node.hidden_le_hidden (cyclesAt_nonneg hnonneg hl) hchildren ?_
  intro n hn
  exact Node.cycles_nonneg fun k hk => hnonneg k (keys_subset_of_mem_childrenAt hl n hn hk)

end Relaxed

end Tree

/-- **Raising thresholds only moves cycles into remainders.**  For two accepted trees that are the
same up to thresholds, and a core with nothing negative in what they read: the leaves that the
stricter stack shows are shown by the other one with the same cycles, the totals are the same, and
the remainder of the whole tree and of every branch that the stricter thresholds keep is at least as
large in the stricter stack. -/
theorem relaxed_stackOf {roots roots' : List (Node ℚ)} {loose strict : Tree ℚ}
    (hloose : Tree.ofRoots roots = .ok loose) (hstrict : Tree.ofRoots roots' = .ok strict)
    (h : loose.Relaxes strict) (books : Books ℚ) (core : ℕ)
    (hnonneg : ∀ k ∈ loose.keys, 0 ≤ books.amount core k) :
    (∀ e ∈ (strict.stackOf true books core).entries, (∃ l ∈ strict.leaves, l.fullPath = e.1) →
        e ∈ (loose.stackOf true books core).entries)
      ∧ (strict.stackOf true books core).total = (loose.stackOf true books core).total
      ∧ ((loose.stackOf true books core).get? remainderName).getD 0
          ≤ ((strict.stackOf true books core).get? remainderName).getD 0
      ∧ ∀ l ∈ strict.places, l.isLeaf = false → strict.Kept (books.amount core) l →
        ((loose.stackOf true books core).get? l.shownName).getD 0
          ≤ ((strict.stackOf true books core).get? l.shownName).getD 0 := by
  obtain ⟨-, hnamesLoose⟩ := Tree.ofRoots_eq_ok hloose
  obtain ⟨-, hnamesStrict⟩ := Tree.ofRoots_eq_ok hstrict
  have hremainder : ∀ l' ∈ strict.places, l'.isLeaf = false → strict.Kept (books.amount core) l' →
      ((loose.stackOf true books core).get? l'.shownName).getD 0
        ≤ ((strict.stackOf true books core).get? l'.shownName).getD 0 := by
    intro l' hl' hleaf hkept
    obtain ⟨l, hl, hrelaxes⟩ := h.exists_place hl'
    have hloosely := Tree.getD_shownName _ hnamesLoose hl (hrelaxes.isLeaf_eq.trans hleaf)
      (h.kept hnonneg hl hrelaxes hkept)
    have hstrictly := Tree.getD_shownName _ hnamesStrict hl' hleaf hkept
    rw [Tree.stackOf, Tree.stackOf, hstrictly, ← hrelaxes.shownName_eq, hloosely]
    exact h.remainder_le hnonneg hl hrelaxes hkept
  refine ⟨?_, ?_, ?_, hremainder⟩
  · rintro e he ⟨m, hm, hname⟩
    obtain ⟨hm, hleaf⟩ := List.mem_filter.1 hm
    obtain ⟨l', hl', hkept, hshown⟩ := (strict.mem_entries_iff _).1 he
    have hsame : l' = m := by
      refine Tree.eq_of_shownName_eq hnamesStrict hl' hm ?_
      rw [← strict.fst_of_shownAt? _ hshown, ← hname, Lineage.shownName, if_pos hleaf]
    obtain ⟨l, hl, hrelaxes⟩ := h.exists_place hl'
    refine (loose.mem_entries_iff _).2 ⟨l, hl, h.kept hnonneg hl hrelaxes hkept, ?_⟩
    rw [← hshown, Tree.shownAt?, Tree.shownAt?, hrelaxes.isLeaf_eq, hsame, if_pos hleaf,
      if_pos hleaf, hrelaxes.shownName_eq, hrelaxes.cycles_eq, hsame]
  · rw [Tree.stackOf, Tree.stackOf, Tree.total_stack, Tree.total_stack, h.cycles_eq]
  · exact hremainder [] (List.mem_append_right _ (List.mem_singleton_self _)) rfl trivial

/-- Caches of which the second is to reach two thirds of what all have. -/
def steepCaches : Node ℚ :=
  .branch "mem" (1 / 20)
    [.leaf "l1" (1 / 2) (.category "L1"),
     .leaf "l2" (2 / 3) (.category "L2"),
     .leaf "l3" (1 / 2) (.category "L3")]

def steepRoots : List (Node ℚ) :=
  [.leaf "base" (1 / 50) (.sum ["Base", "Issue"]), steepCaches,
   .branch "sync" (1 / 2) [.leaf "futex" (1 / 2) (.category "Futex")]]

/-- One core, whose second cache has more than half of what all caches have, but no two thirds. -/
def cachedBooks : Books ℚ :=
  ⟨[(((Catalog.empty.insert "Base" 80).insert "L1" 5).insert "L2" 12).insert "L3" 3]⟩

theorem relaxed_steepRoots :
    Tree.ofRoots foldedRoots = .ok ⟨foldedRoots⟩ ∧ Tree.ofRoots steepRoots = .ok ⟨steepRoots⟩
      ∧ Tree.Relaxes ⟨foldedRoots⟩ ⟨steepRoots⟩
      ∧ (∀ k ∈ Tree.keys ⟨foldedRoots⟩, 0 ≤ cachedBooks.amount 0 k)
      ∧ (Tree.stackOf ⟨steepRoots⟩ true cachedBooks 0).entries = [("base", 80), ("mem-other", 20)]
      ∧ ("base", 80) ∈ (Tree.stackOf ⟨foldedRoots⟩ true cachedBooks 0).entries
      ∧ ((Tree.stackOf ⟨foldedRoots⟩ true cachedBooks 0).get? "mem-other").getD 0 ≤ 20 := by
  have hloose : Tree.ofRoots foldedRoots = .ok ⟨foldedRoots⟩ :=
    Tree.ofRoots_of_isNone (by decide +kernel) (by decide +kernel)
  have hstrict : Tree.ofRoots steepRoots = .ok ⟨steepRoots⟩ :=
    Tree.ofRoots_of_isNone (by decide +kernel) (by decide +kernel)
  have hrelaxes : Tree.Relaxes ⟨foldedRoots⟩ ⟨steepRoots⟩ := by
    refine .cons (.leaf ?_) (.cons (.branch ?_ (.cons (.leaf ?_) (.cons (.leaf ?_)
      (.cons (.leaf ?_) .nil)))) (.cons (.branch ?_ (.cons (.leaf ?_) .nil)) .nil)) <;>
      decide +kernel
  have hnonneg : ∀ k ∈ Tree.keys ⟨foldedRoots⟩, 0 ≤ cachedBooks.amount 0 k := by decide +kernel
  have hshown : (Tree.stackOf ⟨steepRoots⟩ true cachedBooks 0).entries
      = [("base", 80), ("mem-other", 20)] := by decide +kernel
  obtain ⟨hentries, -, -, hremainder⟩ :=
    relaxed_stackOf hloose hstrict hrelaxes cachedBooks 0 hnonneg
  refine ⟨hloose, hstrict, hrelaxes, hnonneg, hshown, hentries _ ?_ ?_, ?_⟩
  · rw [hshown]
    exact List.mem_cons_self
  · refine ⟨[.leaf "base" (1 / 50) (.sum ["Base", "Issue"])], ?_, by decide⟩
    simp [Tree.leaves, Tree.places, steepRoots, Node.lineagesOfAll, Node.lineages, Lineage.isLeaf]
  · have hplace : [steepCaches] ∈ Tree.places ⟨steepRoots⟩ := by
      simp [Tree.places, steepRoots, steepCaches, Node.lineagesOfAll, Node.lineages]
    have hname : Lineage.shownName [steepCaches] = "mem-other" := by decide
    have hmore := hremainder [steepCaches] hplace rfl (by decide +kernel)
    rw [hname, Stack.get?, Stack.get?, hshown] at hmore
    exact hmore

end CycleAccounting
