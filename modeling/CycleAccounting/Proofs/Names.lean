import CycleAccounting.Proofs.Catalog
import CycleAccounting.Proofs.Exact
import CycleAccounting.Stack
import Mathlib.Data.List.Flatten

/-!
# Names of stacks

The names of a tree order the entries of all its stacks.  Whatever the ledger holds and whatever is
collapsed, the names of a stack stand among those of the tree in the same order
(`names_stack_sublist`), and so do the names that any of several stacks shows
(`names_sublist_shownNames`).  None of this needs exact amounts: a threshold that is not a number
only decides which names are left out.

Where the names are distinct, a stack can be aligned to a list of names without losing anything.
`Stack.IsAligned` says what an aligned list of values is, and `isAligned_aligned` that
`Stack.aligned` is one for every list that the names of the stack stand among.
-/

namespace CycleAccounting

variable {α : Type} [Amount α]

/-! ## Names in the order of the tree -/

/-- Siblings that are put together show names of theirs, and behind them at most the remainder. -/
lemma Stack.names_combine_sublist (collapse : Bool) (parent : Option String)
    {parts : List (α × Stack α)} {names : List String}
    (h : (parts.flatMap (·.2.names)).Sublist names) :
    (combine collapse parent parts).names.Sublist (names ++ [path parent remainderName]) := by
  have hshown (p : α × Stack α → Bool) :
      (((parts.filter p).flatMap (·.2.entries)).map (·.1)).Sublist names := by
    rw [List.map_flatMap]
    exact (List.filter_sublist.flatMap _).trans h
  rw [Stack.names, combine, List.partition_eq_filter_filter]
  dsimp only
  rw [List.map_append]
  split_ifs
  · rw [List.map_nil, List.append_nil]
    exact (hshown _).trans (List.sublist_append_left _ _)
  · exact (hshown _).append (List.Sublist.refl _)

namespace Node

mutual

lemma names_stack_sublist (collapse : Bool) (lookup : String → α) (parent : Option String) :
    ∀ n : Node α, (n.stack collapse lookup parent).names.Sublist (n.names parent)
  | .leaf .. => List.Sublist.refl _
  | .branch name _ children => by
      have ih := names_parts_sublist collapse lookup (some (path parent name)) children
      rw [stack, names]
      exact Stack.names_combine_sublist collapse _ ih

lemma names_parts_sublist (collapse : Bool) (lookup : String → α) (parent : Option String) :
    ∀ ns : List (Node α),
      ((parts collapse lookup parent ns).flatMap (·.2.names)).Sublist (namesOfAll parent ns)
  | [] => List.Sublist.refl _
  | n :: rest => by
      rw [parts, List.flatMap_cons, namesOfAll]
      exact (names_stack_sublist collapse lookup parent n).append
        (names_parts_sublist collapse lookup parent rest)

end

end Node

namespace Tree

variable (tree : Tree α)

/-- **The names of a stack stand among the names of its tree**, in the same order. -/
theorem names_stack_sublist (lookup : String → α) (collapse : Bool) :
    (tree.stack collapse lookup).names.Sublist tree.names :=
  Stack.names_combine_sublist collapse none
    (Node.names_parts_sublist collapse lookup none tree.roots)

/-! ## Names of several stacks -/

variable {among : List (Stack α)}

omit [Amount α] in
lemma shownNames_sublist : (tree.shownNames among).Sublist tree.names := List.filter_sublist

omit [Amount α] in
/-- The names of each stack stand among the shown names, if they stand among those of the tree. -/
lemma names_sublist_shownNames {s : Stack α} (hs : s ∈ among) (h : s.names.Sublist tree.names) :
    s.names.Sublist (tree.shownNames among) := by
  have hall : s.names.filter (among.flatMap (·.names)).contains = s.names := by
    rw [List.filter_eq_self]
    intro name hname
    rw [List.contains_iff_mem]
    exact List.mem_flatMap.2 ⟨s, hs, hname⟩
  rw [← hall]
  exact h.filter _

omit [Amount α] in
/-- Exactly the names of the stacks are shown. -/
lemma mem_shownNames_iff (h : ∀ s ∈ among, s.names.Sublist tree.names) (name : String) :
    name ∈ tree.shownNames among ↔ ∃ s ∈ among, name ∈ s.names := by
  constructor
  · intro hname
    have hshown := List.of_mem_filter hname
    rw [List.contains_iff_mem] at hshown
    exact List.mem_flatMap.1 hshown
  · rintro ⟨s, hs, hname⟩
    exact (tree.names_sublist_shownNames hs (h s hs)).subset hname

omit [Amount α] in
/-- The remainder of the whole tree is shown behind everything else. -/
lemma getLast?_shownNames (h : remainderName ∈ tree.shownNames among) :
    (tree.shownNames among).getLast? = some remainderName := by
  have hshown : (among.flatMap (·.names)).contains remainderName = true := List.of_mem_filter h
  rw [shownNames, names, List.filter_append, List.filter_cons_of_pos hshown, List.filter_nil,
    List.getLast?_concat]

end Tree

/-! ## Alignment -/

/-- A list that ranges over more names adds up to the same, if the further ones count nothing. -/
lemma sum_map_sublist {names more : List String} (h : names.Sublist more) (hmore : more.Nodup)
    {f : String → ℚ} (hzero : ∀ name ∈ more, name ∉ names → f name = 0) :
    (more.map f).sum = (names.map f).sum := by
  induction h with
  | slnil => rfl
  | cons name hsub ih =>
      obtain ⟨hnew, hrest⟩ := List.nodup_cons.1 hmore
      obtain ⟨hname, hzero⟩ := List.forall_mem_cons.1 hzero
      rw [List.map_cons, List.sum_cons, hname fun hmem => hnew (hsub.subset hmem), zero_add]
      exact ih hrest hzero
  | cons_cons name hsub ih =>
      obtain ⟨hnew, hrest⟩ := List.nodup_cons.1 hmore
      rw [List.map_cons, List.sum_cons, List.map_cons, List.sum_cons]
      refine congrArg _ (ih hrest ?_)
      intro other hother hnot
      have hne : other ≠ name := fun same => hnew (same ▸ hother)
      exact hzero other (List.mem_cons_of_mem _ hother) (by simp [hne, hnot])

namespace Stack

/-- Values in the places of some names: each entry of the stack in the place of its name, and zero
where the stack has no entry.  However amounts are read as numbers, the values add up to what the
entries add up to. -/
structure IsAligned (s : Stack α) (names : List String) (values : List α) : Prop where
  length_eq : values.length = names.length
  entry : ∀ (i : ℕ) name cycles, names[i]? = some name → (name, cycles) ∈ s.entries →
    values[i]? = some cycles
  absent : ∀ (i : ℕ) name, names[i]? = some name → name ∉ s.names → values[i]? = some 0
  sum_eq : ∀ number : α → ℚ, number 0 = 0 →
    (values.map number).sum = (s.entries.map fun e => number e.2).sum

variable {s : Stack α}

omit [Amount α] in
lemma get?_eq_some_iff (h : s.names.Nodup) (name : String) (cycles : α) :
    s.get? name = some cycles ↔ (name, cycles) ∈ s.entries :=
  Catalog.lookup_eq_some_iff h name cycles

omit [Amount α] in
lemma get?_eq_none {name : String} (h : name ∉ s.names) : s.get? name = none := by
  rw [get?, List.lookup_eq_none_iff]
  intro e he
  rw [bne_iff_ne]
  rintro rfl
  exact h (List.mem_map_of_mem he)

/-- **Alignment loses nothing**, to any distinct names that those of the stack stand among. -/
theorem isAligned_aligned {names : List String} (hnames : names.Nodup)
    (h : s.names.Sublist names) : s.IsAligned names (s.aligned names) where
  length_eq := List.length_map _
  entry i name cycles hi he := by
    have hget := (get?_eq_some_iff (h.nodup hnames) name cycles).2 he
    rw [aligned, List.getElem?_map, hi, Option.map_some, hget]
    rfl
  absent i name hi hname := by
    rw [aligned, List.getElem?_map, hi, Option.map_some, get?_eq_none hname]
    rfl
  sum_eq number hzero := by
    have houtside : ∀ name ∈ names, name ∉ s.names → number ((s.get? name).getD 0) = 0 := by
      intro name _ hname
      rw [get?_eq_none hname]
      exact hzero
    have hentries : s.entries.map (fun e => number ((s.get? e.1).getD 0))
        = s.entries.map fun e => number e.2 := by
      refine List.map_congr_left ?_
      intro e he
      rw [(get?_eq_some_iff (h.nodup hnames) e.1 e.2).2 he]
      rfl
    rw [← hentries, aligned, List.map_map]
    refine (sum_map_sublist h hnames houtside).trans ?_
    rw [Stack.names, List.map_map]
    rfl

end Stack

end CycleAccounting
