import CycleAccounting.Catalog
import Mathlib.Data.List.Nodup
import Mathlib.Data.String.Basic
import Mathlib.Tactic.Lemma
import Mathlib.Tactic.SplitIfs

/-!
# What catalogs hold

Every operation on catalogs is described by what `get?` finds afterwards, and nothing else about
the list of bindings matters to a caller.  In particular `names` lists each bound name once, and
`unionNames` each name that any of its catalogs binds.
-/

namespace CycleAccounting.Catalog

variable {β γ : Type}

/-! ## Lookup -/

lemma lookup_cons_eq (name other : String) (value : β) (bs : List (String × β)) :
    ((name, value) :: bs).lookup other = if other = name then some value else bs.lookup other := by
  rw [List.lookup_cons]
  split <;> simp_all

/-- Placing a binding changes what is found under its own name only.  The order of the list is
not needed: a binding of the same name further back is hidden or replaced. -/
lemma lookup_place (name other : String) (value : β) (bs : List (String × β)) :
    (place name value bs).lookup other = if other = name then some value else bs.lookup other := by
  induction bs with
  | nil => rw [place, lookup_cons_eq]
  | cons head rest ih =>
      obtain ⟨name', value'⟩ := head
      rw [place]
      split
      · rw [lookup_cons_eq]
      · split
        · next same => simp only [lookup_cons_eq, same]; split_ifs <;> rfl
        · next apart =>
          simp only [lookup_cons_eq, ih]
          split_ifs with h h'
          · exact absurd (h'.symm.trans h) apart
          all_goals rfl

lemma get?_insert (m : Catalog β) (name other : String) (value : β) :
    (m.insert name value).get? other = if other = name then some value else m.get? other :=
  lookup_place name other value m.toList

lemma lookup_filter (p : String → Bool) (name : String) (bs : List (String × β)) :
    (bs.filter (p ·.1)).lookup name = if p name then bs.lookup name else none := by
  induction bs with
  | nil => simp
  | cons head rest ih =>
      obtain ⟨name', value'⟩ := head
      rw [List.filter_cons, lookup_cons_eq]
      by_cases same : name = name'
      · subst same
        by_cases hp : p name = true
        · simp [hp]
        · simp [hp, ih]
      · rw [if_neg same, ← ih]
        split_ifs
        · rw [lookup_cons_eq, if_neg same]
        · rfl

/-- The bindings of some names only. -/
def keep (p : String → Bool) (m : Catalog β) : Catalog β :=
  ⟨m.toList.filter (p ·.1), m.sorted.filter _⟩

lemma get?_keep (p : String → Bool) (m : Catalog β) (name : String) :
    (m.keep p).get? name = if p name then m.get? name else none :=
  lookup_filter p name m.toList

lemma get?_erase (m : Catalog β) (name other : String) :
    (m.erase name).get? other = if other = name then none else m.get? other := by
  have h : (m.erase name).get? other = if other != name then m.get? other else none :=
    m.get?_keep (· != name) other
  rw [h]
  by_cases same : other = name <;> simp [same]

/-- In a list that binds no name twice, looking a name up is finding its only binding. -/
lemma lookup_eq_some_iff {bs : List (String × β)} (h : (bs.map (·.1)).Nodup)
    (name : String) (value : β) : bs.lookup name = some value ↔ (name, value) ∈ bs := by
  induction bs with
  | nil => simp
  | cons head rest ih =>
      obtain ⟨name', value'⟩ := head
      obtain ⟨hnew, hrest⟩ := List.nodup_cons.1 h
      rw [lookup_cons_eq, List.mem_cons, Prod.mk.injEq]
      split_ifs with same
      · subst same
        have hnone : (name, value) ∉ rest := fun hr => hnew (List.mem_map.2 ⟨_, hr, rfl⟩)
        simp [hnone, eq_comm]
      · simp [same, ih hrest]

lemma nodup_names (m : Catalog β) : m.names.Nodup := by
  refine List.pairwise_map.2 (m.sorted.imp ?_)
  intro b c h same
  rw [same] at h
  exact h.false

lemma get?_eq_some_iff (m : Catalog β) (name : String) (value : β) :
    m.get? name = some value ↔ (name, value) ∈ m.toList :=
  lookup_eq_some_iff m.nodup_names name value

/-- **A catalog is what it finds**: the order of the names leaves its bindings one order only. -/
theorem ext_get? {m m' : Catalog β} (h : ∀ name, m.get? name = m'.get? name) : m = m' := by
  have hmem (b : String × β) : b ∈ m.toList ↔ b ∈ m'.toList := by
    rw [← get?_eq_some_iff, h, get?_eq_some_iff]
  -- Distinct bindings make the lists permutations of each other, and a strict order admits one.
  have hperm : m.toList.Perm m'.toList :=
    (List.perm_ext_iff_of_nodup (m.nodup_names.of_map _) (m'.nodup_names.of_map _)).2 hmem
  have heq : m.toList = m'.toList :=
    hperm.eq_of_pairwise (fun a b _ _ hab hba => absurd hba (not_lt_of_gt hab)) m.sorted m'.sorted
  obtain ⟨bs, hbs⟩ := m
  obtain rfl := heq
  rfl

lemma lookup_map_snd (f : String → β → γ) (name : String) (bs : List (String × β)) :
    (bs.map fun b => (b.1, f b.1 b.2)).lookup name = (bs.lookup name).map (f name) := by
  induction bs with
  | nil => rfl
  | cons head rest ih =>
      rw [List.map_cons, lookup_cons_eq, lookup_cons_eq, ih]
      split_ifs with same
      · rw [same]
        rfl
      · rfl

/-- The same names, with values made from each name and its value. -/
def mapNamed (f : String → β → γ) (m : Catalog β) : Catalog γ :=
  ⟨m.toList.map fun b => (b.1, f b.1 b.2), by simpa [List.pairwise_map] using m.sorted⟩

lemma get?_mapNamed (f : String → β → γ) (m : Catalog β) (name : String) :
    (m.mapNamed f).get? name = (m.get? name).map (f name) :=
  lookup_map_snd f name m.toList

lemma get?_mapValues (f : β → γ) (m : Catalog β) (name : String) :
    (m.mapValues f).get? name = (m.get? name).map f :=
  m.get?_mapNamed (fun _ => f) name

/-! ## Names -/

@[simp] lemma contains_empty (name : String) : (empty : Catalog β).contains name = false := rfl

lemma contains_insert (m : Catalog β) (name other : String) (value : β) :
    (m.insert name value).contains other = (decide (other = name) || m.contains other) := by
  rw [contains, get?_insert]
  split_ifs with h <;> simp [h, contains]

lemma contains_erase (m : Catalog β) (name other : String) :
    (m.erase name).contains other = (!decide (other = name) && m.contains other) := by
  rw [contains, get?_erase]
  split_ifs with h <;> simp [h, contains]

lemma mem_names_iff (m : Catalog β) (name : String) : name ∈ m.names ↔ m.contains name = true := by
  rw [names, List.mem_map, contains, Option.isSome_iff_exists]
  constructor
  · rintro ⟨⟨_, value⟩, hb, rfl⟩
    exact ⟨value, (get?_eq_some_iff m _ value).2 hb⟩
  · rintro ⟨value, hv⟩
    exact ⟨(name, value), (get?_eq_some_iff m name value).1 hv, rfl⟩

lemma isEmpty_iff (m : Catalog β) : m.isEmpty = true ↔ ∀ name, m.contains name = false := by
  have hnames : m.toList = [] ↔ ∀ name, name ∉ m.names := by
    rw [← List.eq_nil_iff_forall_not_mem, names, List.map_eq_nil_iff]
  rw [isEmpty, List.isEmpty_iff, hnames]
  refine forall_congr' ?_
  intro name
  rw [mem_names_iff, Bool.not_eq_true]

lemma contains_foldl_insert (bs : List (String × β)) (m : Catalog β) (name : String) :
    (bs.foldl (fun m b => m.insert b.1 b.2) m).contains name = true
      ↔ m.contains name = true ∨ name ∈ bs.map (·.1) := by
  induction bs generalizing m with
  | nil => simp
  | cons b bs ih =>
      rw [List.foldl_cons, ih, contains_insert, List.map_cons, List.mem_cons]
      simp [or_assoc, or_left_comm]

lemma mem_unionNames (ms : List (Catalog β)) (name : String) :
    name ∈ unionNames ms ↔ ∃ m ∈ ms, m.contains name = true := by
  rw [unionNames, mem_names_iff, ofList, contains_foldl_insert, contains_empty]
  simp [mem_names_iff]

lemma nodup_unionNames (ms : List (Catalog β)) : (unionNames ms).Nodup := nodup_names _

end CycleAccounting.Catalog
