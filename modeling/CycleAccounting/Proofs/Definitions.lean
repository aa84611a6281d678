import CycleAccounting.Proofs.Offences
import CycleAccounting.Proofs.Order
import CycleAccounting.Proofs.Reconciliation
import CycleAccounting.Tree.Definition

/-!
# Trees that are defined

A forest of definitions becomes a tree in two steps.  The first turns definitions into nodes and
asks only that each is filled in one way (`Definition.IsExact`): definitions have nodes exactly if
they are the definitions of these (`Definition.toNodes_eq_ok_iff`), and if they have none, the error
names the first that is not exact, the outer before the inner (`Definition.toNodes_eq_error_iff`).
The second step checks the nodes.

**`Tree.decided_ofDefinitions`** says for every forest whether it gives a tree, which one, and which
error it gives otherwise.
-/

namespace CycleAccounting

variable {α : Type}

/-! ## Definitions of nodes -/

namespace Node

mutual

/-- The definition of a node, which fills in what the node needs and nothing else. -/
def definition : Node α → Definition α
  | leaf name threshold (.category key) => .mk name threshold (some key) none none
  | leaf name threshold (.sum keys) => .mk name threshold none (some keys) none
  | branch name threshold children => .mk name threshold none none (some (definitions children))

/-- The definitions of a list of nodes. -/
def definitions : List (Node α) → List (Definition α)
  | [] => []
  | n :: rest => n.definition :: definitions rest

end

end Node

namespace Definition

def name : Definition α → String
  | mk name _ _ _ _ => name

/-- Exactly one of the three ways to fill a definition is used. -/
def IsExact : Definition α → Prop
  | mk _ _ key keys children => [key.isSome, keys.isSome, children.isSome].count true = 1

mutual

/-- A definition and those below it, the outer before the inner. -/
def within : Definition α → List (Definition α)
  | mk name threshold key keys none => [mk name threshold key keys none]
  | mk name threshold key keys (some children) =>
    mk name threshold key keys (some children) :: withinAll children

/-- The definitions of a list and those below them. -/
def withinAll : List (Definition α) → List (Definition α)
  | [] => []
  | d :: rest => d.within ++ withinAll rest

end

/-! ## Nodes of definitions -/

mutual

/-- The node of a definition is one that has this definition. -/
lemma definition_of_toNode {n : Node α} : ∀ {d : Definition α}, d.toNode = .ok n → n.definition = d
  | mk name threshold (some key) none none, h => by
      cases h
      rfl
  | mk name threshold none (some keys) none, h => by
      cases h
      rfl
  | mk name threshold none none (some children), h => by
      rw [toNode] at h
      obtain ⟨nodes, hnodes, h⟩ := bind_eq_ok.1 h
      cases h
      rw [Node.definition, definitions_of_toNodes hnodes]

lemma definitions_of_toNodes {ns : List (Node α)} :
    ∀ {ds : List (Definition α)}, toNodes ds = .ok ns → Node.definitions ns = ds
  | [], h => by
      cases h
      rfl
  | d :: rest, h => by
      rw [toNodes] at h
      obtain ⟨n, hn, h⟩ := bind_eq_ok.1 h
      obtain ⟨nodes, hnodes, h⟩ := bind_eq_ok.1 h
      cases h
      rw [Node.definitions, definition_of_toNode hn, definitions_of_toNodes hnodes]

end

mutual

/-- The definition of a node has this node. -/
lemma toNode_definition : ∀ n : Node α, n.definition.toNode = .ok n
  | .leaf _ _ (.category _) => rfl
  | .leaf _ _ (.sum _) => rfl
  | .branch name threshold children => by
      rw [Node.definition, toNode, toNodes_definitions children]
      rfl

lemma toNodes_definitions : ∀ ns : List (Node α), toNodes (Node.definitions ns) = .ok ns
  | [] => rfl
  | n :: rest => by
      rw [Node.definitions, toNodes, toNode_definition n, toNodes_definitions rest]
      rfl

end

/-- **Definitions have nodes exactly if they are the definitions of these.** -/
theorem toNodes_eq_ok_iff {ds : List (Definition α)} {ns : List (Node α)} :
    toNodes ds = .ok ns ↔ ds = Node.definitions ns := by
  constructor
  · intro h
    exact (definitions_of_toNodes h).symm
  · rintro rfl
    exact toNodes_definitions ns

/-! ## Definitions without nodes -/

instance : DecidablePred (IsExact (α := α))
  | mk _ _ _ _ _ => inferInstanceAs (Decidable (_ = _))

lemma toNode_of_not_isExact {d : Definition α} (h : ¬ d.IsExact) :
    d.toNode = .error (.ambiguousPayload d.name) := by
  obtain ⟨own, threshold, key, keys, children⟩ := d
  cases key <;> cases keys <;> cases children <;> first | rfl | exact absurd rfl h

lemma toNode_eq_error_iff_of_isExact {own : String} {threshold : α} {key : Option String}
    {keys : Option (List String)} {children : List (Definition α)} {e : TreeError α}
    (h : (mk own threshold key keys (some children)).IsExact) :
    (mk own threshold key keys (some children)).toNode = .error e
      ↔ toNodes children = .error e := by
  cases key with
  | some key => cases keys <;> simp [IsExact] at h
  | none =>
      cases keys with
      | some keys => simp [IsExact] at h
      | none =>
          rw [toNode, bind_eq_error, or_iff_left]
          rintro ⟨nodes, -, h⟩
          cases h

lemma toNodes_cons_eq_error_iff {d : Definition α} {rest : List (Definition α)}
    {e : TreeError α} : toNodes (d :: rest) = .error e
      ↔ d.toNode = .error e ∨ (∃ n, d.toNode = .ok n) ∧ toNodes rest = .error e := by
  rw [toNodes]
  cases d.toNode with
  | error => simp [bind_eq_error]
  | ok n => cases toNodes rest <;> simp [bind_eq_error, pure, Except.pure]

mutual

/-- The error of a definition names the first definition from there on that is not exact. -/
lemma toNode_eq_error_iff {e : TreeError α} : ∀ d : Definition α, d.toNode = .error e
    ↔ ∃ x, d.within.find? (fun x => ¬ x.IsExact) = some x ∧ e = .ambiguousPayload x.name
  | mk own threshold key keys none => by
      rw [within]
      by_cases h : (mk own threshold key keys none).IsExact
      · rw [List.find?_cons_of_neg (by simpa using h)]
        cases key <;> cases keys <;> simp_all [IsExact, toNode]
      · rw [List.find?_cons_of_pos (by simpa using h), toNode_of_not_isExact h]
        simp [eq_comm]
  | mk own threshold key keys (some children) => by
      have ih := toNodes_eq_error_iff (e := e) children
      rw [within]
      by_cases h : (mk own threshold key keys (some children)).IsExact
      · rw [List.find?_cons_of_neg (by simpa using h), toNode_eq_error_iff_of_isExact h, ih]
      · rw [List.find?_cons_of_pos (by simpa using h), toNode_of_not_isExact h]
        simp [eq_comm]

lemma toNodes_eq_error_iff {e : TreeError α} : ∀ ds : List (Definition α), toNodes ds = .error e
    ↔ ∃ x, (withinAll ds).find? (fun x => ¬ x.IsExact) = some x ∧ e = .ambiguousPayload x.name
  | [] => by simp [toNodes, withinAll]
  | d :: rest => by
      have hd {e : TreeError α} := toNode_eq_error_iff (e := e) d
      have ih := toNodes_eq_error_iff (e := e) rest
      rw [toNodes_cons_eq_error_iff, hd, ih, withinAll, List.find?_append]
      cases hfind : d.within.find? (fun x => ¬ x.IsExact) with
      | some x =>
          have hnode : ¬ ∃ n, d.toNode = .ok n := by simp [hd.2 ⟨x, hfind, rfl⟩]
          simp [hnode]
      | none =>
          have hnode : ∃ n, d.toNode = .ok n := by
            cases hnode : d.toNode with
            | error e =>
                obtain ⟨x, hx, -⟩ := hd.1 hnode
                rw [hfind] at hx
                cases hx
            | ok n => exact ⟨n, rfl⟩
          simp [hnode]

end

/-- Definitions have nodes exactly if all of them are exact. -/
lemma exists_eq_definitions_iff {ds : List (Definition α)} :
    (∃ ns, ds = Node.definitions ns) ↔ ∀ d ∈ withinAll ds, d.IsExact := by
  simp only [← toNodes_eq_ok_iff]
  cases h : toNodes ds with
  | ok ns =>
      have hnone : (withinAll ds).find? (fun x => ¬ x.IsExact) = none := by
        rw [Option.eq_none_iff_forall_ne_some]
        intro d hd
        rw [(toNodes_eq_error_iff ds).2 ⟨d, hd, rfl⟩] at h
        cases h
      simpa using hnone
  | error e =>
      obtain ⟨d, hd, -⟩ := (toNodes_eq_error_iff ds).1 h
      have hexact := List.find?_some hd
      simp only [reduceCtorEq, exists_false, false_iff]
      intro hall
      exact of_decide_eq_true hexact (hall d (List.mem_of_find?_eq_some hd))

end Definition

/-! ## Trees of definitions -/

/-- What is not a number is not a share. -/
lemma Node.isShare_of_isNaN {x : Double} (h : x.isNaN = true) : Node.isShare x = false := by
  have hplace := Double.place?_of_isNaN h
  rw [isShare, Bool.and_eq_false_iff]
  left
  rw [← Bool.not_eq_true, Double.atMost_iff, hplace]
  simp

namespace Tree

/-- **What becomes of a forest of definitions.**  It has nodes exactly if every definition is filled
in one way, and they are those that have just these definitions; else the error names the first
definition that is not, the outer before the inner.  The nodes make a tree exactly if siblings have
names of their own, none of them reserved, and thresholds that are shares, which what is not a
number is not, and if no two full names, those of remainders too, are the same.  Else the error is
what is wrong with the first node that offends, and only if none does, the first full name that has
occurred before. -/
theorem decided_ofDefinitions (ds : List (Definition Double)) :
    ((∃ roots, ds = Node.definitions roots) ↔ ∀ d ∈ Definition.withinAll ds, d.IsExact)
    ∧ (∀ roots, Definition.toNodes ds = .ok roots ↔ ds = Node.definitions roots)
    ∧ (∀ e, Definition.toNodes ds = .error e
        ↔ ∃ d, IsFirst (fun x => ¬ x.IsExact) (Definition.withinAll ds) d
          ∧ e = .ambiguousPayload d.name)
    ∧ (∀ tree, ofDefinitions ds = .ok tree ↔ ds = Node.definitions tree.roots
        ∧ (∀ siblings, Node.Level tree.roots siblings → Node.AreProper siblings)
        ∧ tree.names.Nodup)
    ∧ (∀ e, ofDefinitions ds = .error e ↔
        (∃ d, IsFirst (fun x => ¬ x.IsExact) (Definition.withinAll ds) d
          ∧ e = .ambiguousPayload d.name)
        ∨ ∃ roots, ds = Node.definitions roots
          ∧ ((∃ v, IsFirst (fun u => ∃ e, Visit.Offends u e) (Node.visitsOfAll rootName [] roots) v
              ∧ v.Offends e)
            ∨ (∀ v ∈ Node.visitsOfAll rootName [] roots, ∀ e, ¬ v.Offends e)
              ∧ ∃ name, IsFirstRepeated (names (⟨roots⟩ : Tree Double)) name
                ∧ e = .duplicateName rootName name))
    ∧ ∀ x : Double, x.isNaN = true → Node.isShare x = false := by
  refine ⟨Definition.exists_eq_definitions_iff, fun _ => Definition.toNodes_eq_ok_iff, ?_, ?_, ?_,
    fun _ => Node.isShare_of_isNaN⟩
  · intro e
    simp only [Definition.toNodes_eq_error_iff, isFirst_iff_find?]
  · intro tree
    rw [ofDefinitions, bind_eq_ok]
    simp only [Definition.toNodes_eq_ok_iff, ofRoots_iff_levels]
    constructor
    · rintro ⟨roots, hds, rfl, hlevels, hnames⟩
      exact ⟨hds, hlevels, hnames⟩
    · rintro ⟨hds, hlevels, hnames⟩
      exact ⟨tree.roots, hds, rfl, hlevels, hnames⟩
  · intro e
    rw [ofDefinitions, bind_eq_error, Definition.toNodes_eq_error_iff]
    simp only [Definition.toNodes_eq_ok_iff, ofRoots_eq_error_iff, isFirst_iff_find?]

/-- A branch with no number for a threshold and a child of a reserved name. -/
def offendingBranch : Node Double := .branch "mem" .nan [.leaf "other" 0 (.category "L1")]

/-- Two roots of one name, and between them a branch that offends in two ways. -/
def offendingRoots : List (Node Double) :=
  [.leaf "base" 0 (.category "Base"), offendingBranch, .leaf "base" 0 (.sum ["L2", "L3"])]

/-- A root that is called like the full path of a leaf below another root. -/
def clashingRoots : List (Node Double) :=
  [.branch "mem" 0 [.leaf "l1" 0 (.category "L1")], .leaf "mem-l1" 0 (.category "L2")]

/-- A threshold is checked before the names below it and before later siblings; full names are
compared when nothing else is wrong. -/
theorem decided_offendingRoots :
    ofDefinitions (Node.definitions offendingRoots) = .error (.thresholdOutOfRange "mem" .nan)
      ∧ Double.nan.isNaN = true ∧ Node.isShare Double.nan = false
      ∧ ofDefinitions (Node.definitions clashingRoots)
        = .error (.duplicateName rootName "mem-l1") := by
  obtain ⟨-, -, -, -, herror, hnan⟩ := decided_ofDefinitions (Node.definitions offendingRoots)
  obtain ⟨-, -, -, -, hclash, -⟩ := decided_ofDefinitions (Node.definitions clashingRoots)
  have hshare := hnan .nan rfl
  refine ⟨(herror _).2 (.inr ⟨offendingRoots, rfl, .inl ?_⟩), rfl, hshare,
    (hclash _).2 (.inr ⟨clashingRoots, rfl, .inr ⟨?_, "mem-l1", ?_, rfl⟩⟩)⟩
  · have hbranch : Visit.Offends ⟨rootName, ["base"], offendingBranch⟩
        (.thresholdOutOfRange "mem" .nan) := .thresholdOutOfRange (by decide) (by decide) hshare
    refine ⟨_, ⟨⟨_, hbranch⟩, [⟨rootName, [], .leaf "base" 0 (.category "Base")⟩], _, rfl, ?_⟩,
      hbranch⟩
    rw [List.forall_mem_singleton, ← Visit.offence?_eq_none_iff]
    rfl
  · rw [← Node.offenceOfAll?_eq_none_iff_visits]
    rfl
  · exact ⟨["mem-l1", "mem-other"], ["other"], by decide, by decide, by decide⟩

end Tree

end CycleAccounting
