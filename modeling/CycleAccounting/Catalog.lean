/-!
# Catalogs

A `Catalog β` is a finite map from names to values of `β`, kept as the list of its bindings in
strictly increasing order of the names (code point by code point).  Counters, configuration
entries, mapping tables and the categories of a core are all catalogs, and whoever walks one does
so in name order.

Because the order is strict, a name is bound at most once and two catalogs with the same bindings
are equal.
-/

namespace CycleAccounting

/-- A finite map from names, in name order. -/
structure Catalog (β : Type) where
  /-- The bindings, in increasing order of their names. -/
  toList : List (String × β)
  sorted : toList.Pairwise fun a b => a.1 < b.1

namespace Catalog

variable {β γ : Type}

/-! ## Bindings in name order -/

/-- Puts a binding at its place in a list in name order, instead of any with the same name. -/
def place (name : String) (value : β) : List (String × β) → List (String × β)
  | [] => [(name, value)]
  | (name', value') :: rest =>
    if name < name' then (name, value) :: (name', value') :: rest
    else if name = name' then (name, value) :: rest
    else (name', value') :: place name value rest

theorem mem_place {name : String} {value : β} {b : String × β} {bs : List (String × β)}
    (h : b ∈ place name value bs) : b = (name, value) ∨ b ∈ bs := by
  induction bs with
  | nil => simpa [place] using h
  | cons head rest ih =>
    obtain ⟨name', value'⟩ := head
    rw [place] at h
    split at h
    · simpa using h
    · split at h <;> grind

theorem sorted_place (name : String) (value : β) {bs : List (String × β)}
    (h : bs.Pairwise fun a b => a.1 < b.1) :
    (place name value bs).Pairwise fun a b => a.1 < b.1 := by
  induction bs with
  | nil => simp [place]
  | cons head rest ih =>
    obtain ⟨name', value'⟩ := head
    obtain ⟨above, tail⟩ := List.pairwise_cons.1 h
    rw [place]
    split
    · next below =>
      refine List.pairwise_cons.2 ⟨fun b hb => ?_, h⟩
      rcases List.mem_cons.1 hb with rfl | hb
      · exact below
      · exact String.lt_trans below (above b hb)
    · next notBelow =>
      split
      · next same => exact List.pairwise_cons.2 ⟨same ▸ above, tail⟩
      · next other =>
        refine List.pairwise_cons.2 ⟨fun b hb => ?_, ih tail⟩
        rcases mem_place hb with rfl | hb
        · exact (Std.lt_of_le_of_ne (Std.not_lt.1 notBelow) (Ne.symm other))
        · exact above b hb

/-! ## Operations -/

/-- The catalog without bindings. -/
def empty : Catalog β := ⟨[], .nil⟩

/-- Binds a name to a value, instead of what it was bound to. -/
def insert (m : Catalog β) (name : String) (value : β) : Catalog β :=
  ⟨place name value m.toList, sorted_place name value m.sorted⟩

/-- Removes the binding of a name. -/
def erase (m : Catalog β) (name : String) : Catalog β :=
  ⟨m.toList.filter (·.1 != name), m.sorted.filter _⟩

/-- The value a name is bound to. -/
def get? (m : Catalog β) (name : String) : Option β := m.toList.lookup name

/-- The value a name is bound to, or the one given. -/
def getD (m : Catalog β) (name : String) (otherwise : β) : β := (m.get? name).getD otherwise

/-- Whether the name is bound. -/
def contains (m : Catalog β) (name : String) : Bool := (m.get? name).isSome

/-- The bound names, in order. -/
def names (m : Catalog β) : List String := m.toList.map (·.1)

/-- The values, in the order of their names. -/
def values (m : Catalog β) : List β := m.toList.map (·.2)

/-- Whether nothing is bound. -/
def isEmpty (m : Catalog β) : Bool := m.toList.isEmpty

/-- The catalog of a list of bindings; of two with one name the later counts. -/
def ofList (bindings : List (String × β)) : Catalog β :=
  bindings.foldl (fun m b => m.insert b.1 b.2) empty

/-- Applies a function to every value. -/
def mapValues (f : β → γ) (m : Catalog β) : Catalog γ :=
  ⟨m.toList.map fun b => (b.1, f b.2), by
    simpa [List.pairwise_map] using m.sorted⟩

/-- Sorted union of the names of several catalogs. -/
def unionNames (ms : List (Catalog β)) : List String :=
  (ofList (ms.flatMap fun m => m.names.map fun name => (name, ()))).names

end Catalog

end CycleAccounting
