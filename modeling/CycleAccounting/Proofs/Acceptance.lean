import CycleAccounting.Proofs.Lineage

/-!
# Which trees are accepted

The checks of a tree go through its nodes in order and stop at the first offence.  Without the order
they say three things of every list of siblings: each node is sound by itself (`Node.IsSound`), no
two have the same name, and the same holds below each of them.  A tree is accepted if this holds of
its roots, and if besides no two of its full names are the same (**`Tree.ofRoots_iff`**).
-/

namespace CycleAccounting

variable {α : Type} [Amount α]

namespace Node

/-! ## Sound nodes -/

mutual

/-- Neither a node nor any below it has a reserved name, a threshold that is no share, or children
of one name. -/
def IsSound : Node α → Prop
  | leaf name threshold _ => name ≠ remainderName ∧ isShare threshold = true
  | branch name threshold children =>
    name ≠ remainderName ∧ isShare threshold = true
      ∧ (children.map (·.name)).Nodup ∧ AreSound children

/-- Every node of a list is sound. -/
def AreSound : List (Node α) → Prop
  | [] => True
  | n :: rest => n.IsSound ∧ AreSound rest

end

lemma areSound_iff {ns : List (Node α)} : AreSound ns ↔ ∀ n ∈ ns, n.IsSound := by
  induction ns with
  | nil => simp [AreSound]
  | cons n rest ih => rw [AreSound, ih, List.forall_mem_cons]

/-! ## Offences -/

mutual

/-- A node does not offend if it is sound and has a name of its own. -/
lemma offence?_eq_none_iff (parent : String) (earlier : List String) : ∀ n : Node α,
    n.offence? parent earlier = none ↔ n.name ∉ earlier ∧ n.IsSound
  | leaf name threshold source => by
      rw [offence?, IsSound, Node.name]
      split_ifs <;> simp_all
  | branch name threshold children => by
      have ih := offenceOfAll?_eq_none_iff name [] children
      rw [offence?, IsSound, Node.name]
      split_ifs <;> simp_all

/-- Siblings do not offend if each is sound, and no two of them, nor of them and the nodes before,
have the same name. -/
lemma offenceOfAll?_eq_none_iff (parent : String) (earlier : List String) : ∀ ns : List (Node α),
    offenceOfAll? parent earlier ns = none
      ↔ (ns.map (·.name)).Nodup ∧ AreSound ns ∧ ∀ n ∈ ns, n.name ∉ earlier
  | [] => by simp [offenceOfAll?, AreSound]
  | n :: rest => by
      have hn := offence?_eq_none_iff parent earlier n
      have ih := offenceOfAll?_eq_none_iff parent (n.name :: earlier) rest
      rw [offenceOfAll?, AreSound, List.map_cons, List.nodup_cons, List.forall_mem_cons]
      cases hoffence : n.offence? parent earlier with
      | some e => grind
      | none => grind

end

end Node

namespace Tree

variable {roots : List (Node α)} {tree : Tree α}

omit [Amount α] in
lemma firstRepeated?_eq_none_iff {seen names : List String} :
    firstRepeated? seen names = none ↔ names.Nodup ∧ ∀ name ∈ names, name ∉ seen := by
  refine ⟨firstRepeated?_eq_none, ?_⟩
  induction names generalizing seen with
  | nil => simp [firstRepeated?]
  | cons name rest ih =>
      rintro ⟨hnodup, hnew⟩
      obtain ⟨hname, hrest⟩ := List.nodup_cons.1 hnodup
      rw [firstRepeated?, if_neg (hnew name List.mem_cons_self)]
      refine ih ⟨hrest, ?_⟩
      intro other hother hold
      rcases List.mem_cons.1 hold with rfl | hold
      · exact hname hother
      · exact hnew other (List.mem_cons_of_mem _ hother) hold

/-- **The accepted trees**: roots of distinct names that are sound, and distinct full names. -/
theorem ofRoots_iff : ofRoots roots = .ok tree
    ↔ tree = ⟨roots⟩ ∧ (roots.map (·.name)).Nodup ∧ Node.AreSound roots
      ∧ (names (⟨roots⟩ : Tree α)).Nodup := by
  rw [ofRoots_eq_ok_iff, Node.offenceOfAll?_eq_none_iff, firstRepeated?_eq_none_iff]
  simp [and_assoc]

end Tree

end CycleAccounting
