import CycleAccounting.Proofs.Acceptance

/-!
# Offences of trees

The checks of a tree come to its nodes one after another, the outer before the inner, and at each of
them they know its parent's name and the names of the siblings before it.  That is a `Visit`, and
the visits of a tree are a list.  What is wrong with a visit does not depend on any other
(`Visit.Offends`), so the checks give what is wrong with the first visit that offends
(`Node.offenceOfAll?_eq_some_iff`).

Full names are compared only after that, and the first one that has occurred before is the error
(`Tree.firstRepeated?_eq_some_iff`).  **`Tree.ofRoots_eq_error_iff`** puts the two together.
**`Tree.ofRoots_iff_levels`** says which trees are left: those in which every list of siblings, on
whatever level, is proper by itself.
-/

namespace CycleAccounting

/-- The first element of a list with a property. -/
def IsFirst {β : Type} (p : β → Prop) (xs : List β) (x : β) : Prop :=
  p x ∧ ∃ before after, xs = before ++ x :: after ∧ ∀ y ∈ before, ¬ p y

lemma isFirst_iff_find? {β : Type} {p : β → Prop} [DecidablePred p] {xs : List β} {x : β} :
    IsFirst p xs x ↔ xs.find? (fun y => p y) = some x := by
  simp [IsFirst, List.find?_eq_some_iff_append]

variable {α : Type}

/-! ## Visits -/

/-- A node that the checks come to, with its parent's name and the names of its siblings before it,
the nearest first. -/
structure Visit (α : Type) where
  parent : String
  earlier : List String
  node : Node α

namespace Node

mutual

/-- The visits to a node and to everything below it. -/
def visits (parent : String) (earlier : List String) : Node α → List (Visit α)
  | leaf name threshold source => [⟨parent, earlier, leaf name threshold source⟩]
  | branch name threshold children =>
    ⟨parent, earlier, branch name threshold children⟩ :: visitsOfAll name [] children

/-- The visits to siblings and to everything below them. -/
def visitsOfAll (parent : String) (earlier : List String) : List (Node α) → List (Visit α)
  | [] => []
  | n :: rest => n.visits parent earlier ++ visitsOfAll parent (n.name :: earlier) rest

end

end Node

variable [Amount α]

namespace Visit

/-- What is wrong with a node itself: its name is reserved, or else is that of a sibling before it,
or else its threshold is not a share. -/
inductive Offends (v : Visit α) : TreeError α → Prop
  | reservedName (hname : v.node.name = remainderName) :
    Offends v (.reservedName v.parent v.node.name)
  | duplicateName (hname : v.node.name ≠ remainderName) (hearlier : v.node.name ∈ v.earlier) :
    Offends v (.duplicateName v.parent v.node.name)
  | thresholdOutOfRange (hname : v.node.name ≠ remainderName) (hnew : v.node.name ∉ v.earlier)
    (hthreshold : Node.isShare v.node.threshold = false) :
    Offends v (.thresholdOutOfRange v.node.name v.node.threshold)

/-- What is wrong with a node itself, if anything is. -/
def offence? (v : Visit α) : Option (TreeError α) :=
  if v.node.name = remainderName then some (.reservedName v.parent v.node.name)
  else if v.node.name ∈ v.earlier then some (.duplicateName v.parent v.node.name)
  else if !Node.isShare v.node.threshold then
    some (.thresholdOutOfRange v.node.name v.node.threshold)
  else none

lemma offence?_eq_some_iff {v : Visit α} {e : TreeError α} :
    v.offence? = some e ↔ v.Offends e := by
  rw [offence?]
  constructor
  · intro h
    split_ifs at h with hname hearlier hthreshold
    · cases h
      exact .reservedName hname
    · cases h
      exact .duplicateName hname hearlier
    · cases h
      exact .thresholdOutOfRange hname hearlier (by simpa using hthreshold)
  · rintro (hname | ⟨hname, hearlier⟩ | ⟨hname, hnew, hthreshold⟩)
    · rw [if_pos hname]
    · rw [if_neg hname, if_pos hearlier]
    · rw [if_neg hname, if_neg hnew, if_pos (by simpa using hthreshold)]

lemma offence?_eq_none_iff {v : Visit α} : v.offence? = none ↔ ¬ ∃ e, v.Offends e := by
  rw [Option.eq_none_iff_forall_ne_some, not_exists]
  exact forall_congr' fun e => not_congr offence?_eq_some_iff

end Visit

namespace Node

mutual

/-- Checking a node is checking the visits to it and below it. -/
lemma offence?_eq_findSome? (parent : String) (earlier : List String) : ∀ n : Node α,
    n.offence? parent earlier = (n.visits parent earlier).findSome? Visit.offence?
  | leaf name threshold source => by
      rw [offence?, visits, List.findSome?_singleton, Visit.offence?]
      rfl
  | branch name threshold children => by
      have ih := offenceOfAll?_eq_findSome? name [] children
      rw [offence?, visits, List.findSome?_cons, Visit.offence?, ih]
      dsimp only [Node.name, Node.threshold]
      split_ifs <;> simp_all

lemma offenceOfAll?_eq_findSome? (parent : String) (earlier : List String) : ∀ ns : List (Node α),
    offenceOfAll? parent earlier ns = (visitsOfAll parent earlier ns).findSome? Visit.offence?
  | [] => rfl
  | n :: rest => by
      have hn := offence?_eq_findSome? parent earlier n
      have ih := offenceOfAll?_eq_findSome? parent (n.name :: earlier) rest
      rw [offenceOfAll?, visitsOfAll, List.findSome?_append, ← hn, ih]
      cases n.offence? parent earlier <;> rfl

end

/-- **The checks give what is wrong with the first visit that offends.** -/
lemma offenceOfAll?_eq_some_iff {parent : String} {earlier : List String} {ns : List (Node α)}
    {e : TreeError α} : offenceOfAll? parent earlier ns = some e
      ↔ ∃ v, IsFirst (fun u => ∃ e, Visit.Offends u e) (visitsOfAll parent earlier ns) v
        ∧ v.Offends e := by
  rw [offenceOfAll?_eq_findSome?, List.findSome?_eq_some_iff]
  simp only [Visit.offence?_eq_none_iff, Visit.offence?_eq_some_iff]
  constructor
  · rintro ⟨before, v, after, hvisits, he, hbefore⟩
    exact ⟨v, ⟨⟨e, he⟩, before, after, hvisits, hbefore⟩, he⟩
  · rintro ⟨v, ⟨-, before, after, hvisits, hbefore⟩, he⟩
    exact ⟨before, v, after, hvisits, he, hbefore⟩

lemma offenceOfAll?_eq_none_iff_visits {parent : String} {earlier : List String}
    {ns : List (Node α)} : offenceOfAll? parent earlier ns = none
      ↔ ∀ v ∈ visitsOfAll parent earlier ns, ∀ e, ¬ v.Offends e := by
  rw [offenceOfAll?_eq_findSome?, List.findSome?_eq_none_iff]
  simp only [Visit.offence?_eq_none_iff, not_exists]

end Node

/-! ## Levels -/

namespace Node

/-- A list of siblings in a forest: its roots, or the children of a branch among other siblings. -/
inductive Level (roots : List (Node α)) : List (Node α) → Prop
  | roots : Level roots roots
  | children {siblings : List (Node α)} {name : String} {threshold : α} {children : List (Node α)}
    (hsiblings : Level roots siblings) (hmem : branch name threshold children ∈ siblings) :
    Level roots children

omit [Amount α] in
lemma Level.trans {roots siblings children : List (Node α)} (hsiblings : Level roots siblings)
    (hchildren : Level siblings children) : Level roots children := by
  induction hchildren with
  | roots => exact hsiblings
  | children _ hmem ih => exact ih.children hmem

/-- Siblings with distinct names, none of them reserved, and thresholds that are shares. -/
structure AreProper (siblings : List (Node α)) : Prop where
  nodup : (siblings.map (·.name)).Nodup
  name_ne : ∀ n ∈ siblings, n.name ≠ remainderName
  isShare : ∀ n ∈ siblings, Node.isShare n.threshold = true

lemma IsSound.name_ne {n : Node α} (h : n.IsSound) : n.name ≠ remainderName := by
  cases n with
  | leaf => exact h.1
  | branch => exact h.1

lemma IsSound.isShare {n : Node α} (h : n.IsSound) : Node.isShare n.threshold = true := by
  cases n with
  | leaf => exact h.2
  | branch => exact h.2.1

/-- Soundness goes down to every level. -/
lemma AreSound.level {roots siblings : List (Node α)} (h : Level roots siblings)
    (hsound : AreSound roots) (hroots : (roots.map (·.name)).Nodup) :
    AreSound siblings ∧ (siblings.map (·.name)).Nodup := by
  induction h with
  | roots => exact ⟨hsound, hroots⟩
  | children _ hmem ih =>
      obtain ⟨-, -, hnodup, hchildren⟩ := areSound_iff.1 ih.1 _ hmem
      exact ⟨hchildren, hnodup⟩

/-- Nodes are sound if all levels from theirs on are proper. -/
lemma areSound_of_levels (roots : List (Node α))
    (h : ∀ siblings, Level roots siblings → AreProper siblings) : AreSound roots := by
  rw [areSound_iff]
  intro n hn
  have hname := (h roots .roots).name_ne n hn
  have hshare := (h roots .roots).isShare n hn
  cases n with
  | leaf => exact ⟨hname, hshare⟩
  | branch name threshold children =>
      have hchildren : Level roots children := .children .roots hn
      refine ⟨hname, hshare, (h children hchildren).nodup, ?_⟩
      exact areSound_of_levels children fun siblings hlevel => h siblings (hchildren.trans hlevel)
termination_by sizeOf roots
decreasing_by
  have hlt := List.sizeOf_lt_of_mem hn
  rw [branch.sizeOf_spec] at hlt
  omega

/-- **Nodes are sound and have distinct names exactly if every level is proper.** -/
theorem areSound_iff_levels {roots : List (Node α)} :
    (roots.map (·.name)).Nodup ∧ AreSound roots
      ↔ ∀ siblings, Level roots siblings → AreProper siblings := by
  constructor
  · rintro ⟨hroots, hsound⟩ siblings hlevel
    obtain ⟨hsiblings, hnodup⟩ := AreSound.level hlevel hsound hroots
    rw [areSound_iff] at hsiblings
    exact ⟨hnodup, fun n hn => (hsiblings n hn).name_ne, fun n hn => (hsiblings n hn).isShare⟩
  · intro h
    exact ⟨(h roots .roots).nodup, areSound_of_levels roots h⟩

end Node

/-! ## Accepted and refused trees -/

namespace Tree

/-- The first name of a list that has occurred before. -/
def IsFirstRepeated (names : List String) (name : String) : Prop :=
  ∃ before after, names = before ++ name :: after ∧ before.Nodup ∧ name ∈ before

lemma firstRepeated?_eq_some_iff_seen {seen names : List String} {name : String} :
    firstRepeated? seen names = some name
      ↔ ∃ before after, names = before ++ name :: after ∧ before.Nodup
        ∧ (∀ x ∈ before, x ∉ seen) ∧ (name ∈ before ∨ name ∈ seen) := by
  induction names generalizing seen with
  | nil => simp [firstRepeated?]
  | cons x rest ih =>
      rw [firstRepeated?]
      split_ifs with hseen
      · constructor
        · intro h
          cases h
          exact ⟨[], rest, rfl, List.nodup_nil, by simp, .inr hseen⟩
        · rintro ⟨before, after, hnames, -, hnew, -⟩
          cases before with
          | nil => rw [(List.cons.inj hnames).1]
          | cons y before =>
              obtain ⟨rfl, -⟩ := List.cons.inj hnames
              exact absurd hseen (hnew x List.mem_cons_self)
      · rw [ih]
        constructor
        · rintro ⟨before, after, rfl, hnodup, hnew, hname⟩
          simp only [List.mem_cons, not_or] at hnew
          refine ⟨x :: before, after, rfl, ?_, ?_, by grind⟩
          · exact List.nodup_cons.2 ⟨fun hx => (hnew x hx).1 rfl, hnodup⟩
          · exact List.forall_mem_cons.2 ⟨hseen, fun y hy => (hnew y hy).2⟩
        · rintro ⟨before, after, hnames, hnodup, hnew, hname⟩
          cases before with
          | nil =>
              obtain ⟨rfl, -⟩ := List.cons.inj hnames
              exact absurd (hname.resolve_left List.not_mem_nil) hseen
          | cons y before =>
              obtain ⟨rfl, hrest⟩ := List.cons.inj hnames
              obtain ⟨hx, hnodup⟩ := List.nodup_cons.1 hnodup
              exact ⟨before, after, hrest, hnodup, by grind, by grind⟩

lemma firstRepeated?_eq_some_iff {names : List String} {name : String} :
    firstRepeated? [] names = some name ↔ IsFirstRepeated names name := by
  rw [firstRepeated?_eq_some_iff_seen, IsFirstRepeated]
  simp

variable {roots : List (Node α)} {tree : Tree α}

/-- **The accepted trees, level by level.** -/
theorem ofRoots_iff_levels : ofRoots roots = .ok tree
    ↔ tree = ⟨roots⟩ ∧ (∀ siblings, Node.Level roots siblings → Node.AreProper siblings)
      ∧ (names (⟨roots⟩ : Tree α)).Nodup := by
  rw [ofRoots_iff, ← Node.areSound_iff_levels, and_assoc]

/-- **The error of a refused tree**: what is wrong with the first node that offends, and if none
does, the first full name that has occurred before. -/
theorem ofRoots_eq_error_iff {e : TreeError α} : ofRoots roots = .error e
    ↔ (∃ v, IsFirst (fun u => ∃ e, Visit.Offends u e) (Node.visitsOfAll rootName [] roots) v
        ∧ v.Offends e)
      ∨ (∀ v ∈ Node.visitsOfAll rootName [] roots, ∀ e, ¬ v.Offends e)
        ∧ ∃ name, IsFirstRepeated (names (⟨roots⟩ : Tree α)) name
          ∧ e = .duplicateName rootName name := by
  rw [← Node.offenceOfAll?_eq_some_iff, ← Node.offenceOfAll?_eq_none_iff_visits, ofRoots]
  simp only [← firstRepeated?_eq_some_iff]
  cases Node.offenceOfAll? rootName [] roots with
  | some offence => simp
  | none => cases firstRepeated? [] (names (⟨roots⟩ : Tree α)) <;> simp [eq_comm]

end Tree

end CycleAccounting
