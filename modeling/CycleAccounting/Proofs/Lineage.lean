import CycleAccounting.Stack
import CycleAccounting.Proofs.Exact
import Mathlib.Data.String.Basic

/-!
# Lineages

What a tree shows can be told without following the recursion that shows it.  A lineage is the
chain of nodes from a root down to some node; the places of a tree are all its lineages and the
empty one, which stands for the tree as a whole.  In every place one thing can be shown: a leaf, or
the remainder of a branch or of the tree.  `Tree.places` lists them in the order of `Tree.names`
(`names_eq`), and `Tree.shownAt?` says what is shown there:

* a place is **kept** if every node of the lineage reaches its threshold of what its parent has;
* a kept leaf is shown with its cycles;
* a kept branch shows the cycles of its children that are not kept, unless they cancel.

The **bearer** of a lineage is its longest kept part: the one place where a leaf's cycles go.
-/

namespace CycleAccounting

/-- The nodes from a root of a tree down to one of its nodes. -/
abbrev Lineage (α : Type) := List (Node α)

namespace Node

variable {α : Type}

def children : Node α → List (Node α)
  | leaf .. => []
  | branch _ _ children => children

mutual

/-- The lineages that begin with a node, a branch behind all that is below it. -/
def lineages : Node α → List (Lineage α)
  | leaf name threshold source => [[leaf name threshold source]]
  | branch name threshold children =>
    (lineagesOfAll children).map (branch name threshold children :: ·)
      ++ [[branch name threshold children]]

/-- The lineages that begin with one of some siblings. -/
def lineagesOfAll : List (Node α) → List (Lineage α)
  | [] => []
  | n :: rest => n.lineages ++ lineagesOfAll rest

end

/-- The cycles that a node reads. -/
def cycles (lookup : String → ℚ) (n : Node ℚ) : ℚ := (n.keys.map lookup).sum

end Node

namespace Lineage

variable {α : Type}

/-- The names of the lineage, joined by hyphens. -/
def fullPath (l : Lineage α) : String := "-".intercalate (l.map Node.name)

/-- The path that the children of the last node are below. -/
def parentPath (l : Lineage α) : Option String := if l.isEmpty then none else some l.fullPath

/-- Whether the last node is a leaf. -/
def isLeaf (l : Lineage α) : Bool :=
  match l.getLast? with
  | some (.leaf ..) => true
  | _ => false

/-- What is shown in the place of the lineage: a leaf under its full path, else a remainder. -/
def shownName (l : Lineage α) : String :=
  if l.isLeaf then l.fullPath else path l.parentPath remainderName

/-- The cycles of the last node. -/
def cycles (lookup : String → ℚ) (l : Lineage ℚ) : ℚ := (l.getLast?.map (·.cycles lookup)).getD 0

/-- Every node of the lineage has at least its threshold's share of what its parent has, the first
one of a subtotal. -/
def Kept (lookup : String → ℚ) : ℚ → Lineage ℚ → Prop
  | _, [] => True
  | subtotal, n :: below =>
    n.threshold * subtotal ≤ n.cycles lookup ∧ Kept lookup (n.cycles lookup) below

instance decidableKept (lookup : String → ℚ) :
    ∀ (subtotal : ℚ) (l : Lineage ℚ), Decidable (Kept lookup subtotal l)
  | _, [] => isTrue trivial
  | subtotal, n :: below =>
    have := decidableKept lookup (n.cycles lookup) below
    inferInstanceAs (Decidable (n.threshold * subtotal ≤ n.cycles lookup ∧ _))

/-- The longest part of the lineage that is kept. -/
def bearer (lookup : String → ℚ) : ℚ → Lineage ℚ → Lineage ℚ
  | _, [] => []
  | subtotal, n :: below =>
    if n.threshold * subtotal ≤ n.cycles lookup then n :: bearer lookup (n.cycles lookup) below
    else []

end Lineage

namespace Tree

/-- Where something can be shown: at every node, behind all that is below it, and last of all for
the tree as a whole. -/
def places {α : Type} (tree : Tree α) : List (Lineage α) := Node.lineagesOfAll tree.roots ++ [[]]

/-- The lineages of the leaves, in the order of the tree. -/
def leaves {α : Type} (tree : Tree α) : List (Lineage α) := tree.places.filter Lineage.isLeaf

/-- The nodes directly below a place. -/
def childrenAt {α : Type} (tree : Tree α) (l : Lineage α) : List (Node α) :=
  (l.getLast?.map Node.children).getD tree.roots

variable (tree : Tree ℚ) (lookup : String → ℚ)

/-- The cycles that the tree reads. -/
def cycles : ℚ := (tree.keys.map lookup).sum

/-- The cycles that the children of a place are measured against. -/
def cyclesAt (l : Lineage ℚ) : ℚ := (l.getLast?.map (·.cycles lookup)).getD (tree.cycles lookup)

/-- Whether a node and all nodes above it reach their thresholds. -/
def Kept (l : Lineage ℚ) : Prop := l.Kept lookup (tree.cycles lookup)

instance : DecidablePred (tree.Kept lookup) := fun l => Lineage.decidableKept lookup _ l

/-- The cycles of the nodes directly below a place that are not kept. -/
def remainder (l : Lineage ℚ) : ℚ :=
  (((tree.childrenAt l).filter fun c => ¬ tree.Kept lookup (l ++ [c])).map (·.cycles lookup)).sum

/-- What a kept place shows. -/
def shownAt? (l : Lineage ℚ) : Option (String × ℚ) :=
  if l.isLeaf then some (l.shownName, l.cycles lookup)
  else if tree.remainder lookup l = 0 then none
  else some (l.shownName, tree.remainder lookup l)

/-- Where the cycles of a leaf go. -/
def bearer (l : Lineage ℚ) : Lineage ℚ := l.bearer lookup (tree.cycles lookup)

end Tree

/-! ## Lineages and paths -/

namespace Lineage

variable {α : Type}

lemma map_nil_append (ls : List (Lineage α)) : ls.map (([] : Lineage α) ++ ·) = ls :=
  List.map_id' ls

@[simp] lemma isLeaf_append_leaf (above : Lineage α) (name : String) (threshold : α)
    (source : Source) : isLeaf (above ++ [.leaf name threshold source]) = true := by
  simp [isLeaf]

@[simp] lemma isLeaf_append_branch (above : Lineage α) (name : String) (threshold : α)
    (children : List (Node α)) : isLeaf (above ++ [.branch name threshold children]) = false := by
  simp [isLeaf]

@[simp] lemma cycles_append (lookup : String → ℚ) (above : Lineage ℚ) (n : Node ℚ) :
    cycles lookup (above ++ [n]) = n.cycles lookup := by
  simp [cycles]

/-- The path of a node is its name below the path of its parent. -/
lemma path_parentPath (above : Lineage α) (n : Node α) :
    path above.parentPath n.name = fullPath (above ++ [n]) := by
  cases above with
  | nil => simp [parentPath, path, fullPath]
  | cons m above =>
      have h : fullPath (m :: above ++ [n]) = fullPath (m :: above) ++ "-" ++ n.name := by
        rw [fullPath, List.map_append, String.intercalate_append_of_ne_nil (by simp) (by simp)]
        simp [fullPath]
      rw [h]
      rfl

lemma parentPath_append (above : Lineage α) (n : Node α) :
    parentPath (above ++ [n]) = some (path above.parentPath n.name) := by
  rw [path_parentPath, parentPath]
  simp

lemma shownName_append_leaf (above : Lineage α) (name : String) (threshold : α)
    (source : Source) :
    shownName (above ++ [.leaf name threshold source]) = path above.parentPath name := by
  rw [shownName, isLeaf_append_leaf, if_pos rfl, ← path_parentPath]
  rfl

lemma shownName_append_branch (above : Lineage α) (name : String) (threshold : α)
    (children : List (Node α)) :
    shownName (above ++ [.branch name threshold children])
      = path (some (path above.parentPath name)) remainderName := by
  rw [shownName, isLeaf_append_branch, if_neg Bool.false_ne_true, parentPath_append]
  rfl

/-! ## Kept lineages -/

lemma kept_append (lookup : String → ℚ) (subtotal : ℚ) (l m : Lineage ℚ) :
    Kept lookup subtotal (l ++ m)
      ↔ Kept lookup subtotal l
        ∧ Kept lookup ((l.getLast?.map (·.cycles lookup)).getD subtotal) m := by
  induction l generalizing subtotal with
  | nil => simp [Kept]
  | cons n below ih =>
      rw [List.cons_append, Kept, Kept, ih, and_assoc, List.getLast?_cons]
      cases below.getLast? <;> rfl

lemma bearer_of_kept {lookup : String → ℚ} {subtotal : ℚ} {l : Lineage ℚ}
    (h : Kept lookup subtotal l) : bearer lookup subtotal l = l := by
  induction l generalizing subtotal with
  | nil => rfl
  | cons n below ih => rw [bearer, if_pos h.1, ih h.2]

/-- The first node that is not kept ends the bearer. -/
lemma bearer_append {lookup : String → ℚ} {subtotal : ℚ} {above : Lineage ℚ} {n : Node ℚ}
    (hkept : Kept lookup subtotal above) (hn : ¬ Kept lookup subtotal (above ++ [n]))
    (l : Lineage ℚ) : bearer lookup subtotal (above ++ n :: l) = above := by
  induction above generalizing subtotal with
  | nil =>
      have hfall : ¬ n.threshold * subtotal ≤ n.cycles lookup := fun hle => hn ⟨hle, trivial⟩
      rw [List.nil_append, bearer, if_neg hfall]
  | cons m below ih =>
      rw [List.cons_append, bearer, if_pos hkept.1, ih hkept.2 fun h => hn ⟨hkept.1, h⟩]

end Lineage

namespace Tree

lemma childrenAt_append {α : Type} (tree : Tree α) (above : Lineage α) (n : Node α) :
    tree.childrenAt (above ++ [n]) = n.children := by
  simp [childrenAt]

variable (tree : Tree ℚ) (lookup : String → ℚ)

lemma cyclesAt_append (above : Lineage ℚ) (n : Node ℚ) :
    tree.cyclesAt lookup (above ++ [n]) = n.cycles lookup := by
  simp [cyclesAt]

/-- A node below a kept place is kept if it reaches its own threshold. -/
lemma kept_append_iff {above : Lineage ℚ} (h : tree.Kept lookup above) (n : Node ℚ) :
    tree.Kept lookup (above ++ [n])
      ↔ n.threshold * tree.cyclesAt lookup above ≤ n.cycles lookup := by
  rw [Kept, Lineage.kept_append]
  exact ⟨fun hn => hn.2.1, fun hn => ⟨h, hn, trivial⟩⟩

lemma kept_of_append {above below : Lineage ℚ} (h : tree.Kept lookup (above ++ below)) :
    tree.Kept lookup above :=
  ((Lineage.kept_append lookup _ above below).1 h).1

lemma bearer_of_kept {l : Lineage ℚ} (h : tree.Kept lookup l) : tree.bearer lookup l = l :=
  Lineage.bearer_of_kept h

end Tree

/-! ## Places and names -/

namespace Node

variable {α : Type}

/-- The places below a branch, and behind them its own. -/
lemma map_lineages_branch (above : Lineage α) (name : String) (threshold : α)
    (children : List (Node α)) :
    (lineages (.branch name threshold children)).map (above ++ ·)
      = (lineagesOfAll children).map (above ++ [.branch name threshold children] ++ ·)
        ++ [above ++ [.branch name threshold children]] := by
  rw [lineages, List.map_append, List.map_map]
  simp [Function.comp_def]

lemma map_lineages_leaf (above : Lineage α) (name : String) (threshold : α) (source : Source) :
    (lineages (.leaf name threshold source)).map (above ++ ·)
      = [above ++ [.leaf name threshold source]] := rfl

/-- Every lineage of a node begins with the node. -/
lemma eq_cons_of_mem_lineages {n : Node α} {l : Lineage α} (h : l ∈ n.lineages) :
    ∃ below, l = n :: below := by
  cases n with
  | leaf => exact ⟨[], List.mem_singleton.1 h⟩
  | branch =>
      rw [lineages, List.mem_append, List.mem_map, List.mem_singleton] at h
      rcases h with ⟨below, -, rfl⟩ | rfl
      · exact ⟨below, rfl⟩
      · exact ⟨[], rfl⟩

mutual

lemma names_eq_map (above : Lineage α) : ∀ n : Node α,
    n.names above.parentPath = (n.lineages.map (above ++ ·)).map Lineage.shownName
  | .leaf name threshold source => by
      rw [names, map_lineages_leaf, List.map_singleton, Lineage.shownName_append_leaf]
  | .branch name threshold children => by
      have ih := namesOfAll_eq_map (above ++ [.branch name threshold children]) children
      rw [Lineage.parentPath_append] at ih
      rw [names, map_lineages_branch, List.map_append, List.map_singleton,
        Lineage.shownName_append_branch, ← ih]
      rfl

lemma namesOfAll_eq_map (above : Lineage α) : ∀ ns : List (Node α),
    namesOfAll above.parentPath ns = ((lineagesOfAll ns).map (above ++ ·)).map Lineage.shownName
  | [] => rfl
  | n :: rest => by
      rw [namesOfAll, lineagesOfAll, List.map_append, List.map_append, names_eq_map above n,
        namesOfAll_eq_map above rest]

end

end Node

/-- **The names of a tree are what its places show**, in the same order. -/
theorem Tree.names_eq {α : Type} (tree : Tree α) :
    tree.names = tree.places.map Lineage.shownName := by
  have h : Node.namesOfAll none tree.roots
      = (Node.lineagesOfAll tree.roots).map Lineage.shownName := by
    simpa [Lineage.parentPath] using Node.namesOfAll_eq_map [] tree.roots
  rw [Tree.names, Tree.places, List.map_append, h]
  rfl

/-- No leaf stands in the place of the whole tree. -/
lemma Tree.leaves_eq {α : Type} (tree : Tree α) :
    tree.leaves = (Node.lineagesOfAll tree.roots).filter Lineage.isLeaf := by
  rw [leaves, places, List.filter_append, List.filter_cons_of_neg (by simp [Lineage.isLeaf]),
    List.filter_nil, List.append_nil]

/-! ## Accepted trees -/

namespace Tree

lemma firstRepeated?_eq_none {seen names : List String} (h : firstRepeated? seen names = none) :
    names.Nodup ∧ ∀ name ∈ names, name ∉ seen := by
  induction names generalizing seen with
  | nil => exact ⟨List.nodup_nil, by simp⟩
  | cons name rest ih =>
      by_cases hseen : name ∈ seen
      · rw [firstRepeated?, if_pos hseen] at h
        cases h
      · rw [firstRepeated?, if_neg hseen] at h
        obtain ⟨hrest, hnew⟩ := ih h
        refine ⟨List.nodup_cons.2 ⟨fun hmem => hnew name hmem (by simp), hrest⟩, ?_⟩
        rintro other hother
        rcases List.mem_cons.1 hother with rfl | hmem
        · exact hseen
        · exact fun hold => hnew other hmem (List.mem_cons_of_mem _ hold)

section Accepted

variable {α : Type} [Amount α] {roots : List (Node α)} {tree : Tree α}

/-- A tree is accepted if no node offends and no name is repeated. -/
lemma ofRoots_eq_ok_iff : ofRoots roots = .ok tree
    ↔ tree = ⟨roots⟩ ∧ Node.offenceOfAll? rootName [] roots = none
      ∧ firstRepeated? [] (names (⟨roots⟩ : Tree α)) = none := by
  rw [ofRoots]
  cases Node.offenceOfAll? rootName [] roots with
  | some e => simp
  | none =>
      dsimp only
      cases firstRepeated? [] (names (⟨roots⟩ : Tree α)) with
      | some name => simp
      | none => simp [eq_comm]

/-- **An accepted tree has the given roots, and no two of its places show the same name.** -/
theorem ofRoots_eq_ok (h : ofRoots roots = .ok tree) : tree.roots = roots ∧ tree.names.Nodup := by
  obtain ⟨rfl, -, hnames⟩ := ofRoots_eq_ok_iff.1 h
  exact ⟨rfl, (firstRepeated?_eq_none hnames).1⟩

lemma ofRoots_of_isNone (hnodes : (Node.offenceOfAll? rootName [] roots).isNone = true)
    (hnames : (firstRepeated? [] (names ⟨roots⟩)).isNone = true) : ofRoots roots = .ok ⟨roots⟩ :=
  ofRoots_eq_ok_iff.2
    ⟨rfl, Option.isNone_iff_eq_none.1 hnodes, Option.isNone_iff_eq_none.1 hnames⟩

lemma name_ne_of_offenceOfAll? {parent : String} {earlier : List String} {ns : List (Node α)}
    (h : Node.offenceOfAll? parent earlier ns = none) : ∀ n ∈ ns, n.name ≠ remainderName := by
  induction ns generalizing earlier with
  | nil => simp
  | cons n rest ih =>
      rw [Node.offenceOfAll?] at h
      split at h
      · cases h
      · next hnone =>
          refine List.forall_mem_cons.2 ⟨?_, ih h⟩
          intro hname
          cases n <;> simp_all [Node.offence?, Node.name]

/-- No root of an accepted tree is called like a remainder. -/
lemma name_ne_remainderName (h : ofRoots roots = .ok tree) :
    ∀ n ∈ tree.roots, n.name ≠ remainderName := by
  obtain ⟨rfl, hnodes, -⟩ := ofRoots_eq_ok_iff.1 h
  exact name_ne_of_offenceOfAll? hnodes

end Accepted

end Tree

end CycleAccounting
