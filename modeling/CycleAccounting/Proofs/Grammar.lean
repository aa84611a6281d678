import CycleAccounting.Counter.Role
import Mathlib.Data.List.DropRight
import Mathlib.Tactic.Lemma

/-!
# The grammar of counter names

`Role.ofName` reads a name by tests that are made in a fixed order.  The grammar below has no order.
The families that are told by how a name starts exclude each other, because none of their starts is
the start of another (`Role.isPrefixOf?_eq_none`); and a name is taken apart at the marker of a
category in one way only, because the marker does not overlap with itself: an occurrence of it that
begins before a place where it stands has ended there (`Text.cut?_append`).

* `Text.ArePieces` says what the pieces of a text are: they have no separator, and joined by it they
  are the text.
* `Role.NamesUnits` says which units a name lists, behind its last hyphen.
* `Role.IsCategoryOf` says which category a name has: the text between the first marker and the
  second, or the end.

`Role.Names` is the grammar, and reading a name decides it (**`Role.ofName_eq_iff`**).
**`Role.grammar_ofName`** spells this out role by role, for all names.
-/

namespace CycleAccounting

namespace Text

/-! ## Words in a text -/

section Words

variable {word text : List Char}

lemma isPrefixOf?_eq_none_iff : word.isPrefixOf? text = none ↔ ¬ word <+: text := by
  rw [← Option.not_isSome_iff_eq_none, Option.isSome_iff_exists]
  refine not_congr (exists_congr ?_)
  intro after
  exact List.isPrefixOf?_eq_some_iff_append_eq

lemma cut?_eq_none_iff : cut? word text = none ↔ ¬ word <:+: text := by
  induction text with
  | nil => cases word <;> simp [cut?]
  | cons c rest ih =>
      rw [cut?, List.infix_cons_iff]
      cases hstart : word.isPrefixOf? (c :: rest) with
      | some after =>
          have hhead : word <+: c :: rest :=
            ⟨after, List.isPrefixOf?_eq_some_iff_append_eq.1 hstart⟩
          simp [hhead]
      | none => simp [isPrefixOf?_eq_none_iff.1 hstart, ih]

/-- A word occurs in a text if the text contains it in one piece. -/
lemma occurs_iff : occurs word text = true ↔ word <:+: text := by
  rw [occurs, Option.isSome_iff_ne_none, ne_eq, cut?_eq_none_iff, not_not]

/-- A text is cut where the word stands, and before it there is no other occurrence. -/
lemma cut?_eq_some {before after : List Char} (hword : word ≠ [])
    (h : cut? word text = some (before, after)) :
    text = before ++ word ++ after ∧ ¬ word <:+: before := by
  induction text generalizing before with
  | nil =>
      rw [cut?, if_neg (by simpa using hword)] at h
      cases h
  | cons c rest ih =>
      rw [cut?] at h
      cases hstart : word.isPrefixOf? (c :: rest) with
      | some behind =>
          rw [hstart] at h
          cases h
          exact ⟨(List.isPrefixOf?_eq_some_iff_append_eq.1 hstart).symm, by simpa using hword⟩
      | none =>
          rw [hstart] at h
          obtain ⟨⟨before, after⟩, hrest, h⟩ := Option.map_eq_some_iff.1 h
          cases h
          obtain ⟨rfl, hbefore⟩ := ih hrest
          refine ⟨rfl, ?_⟩
          rw [List.infix_cons_iff, not_or]
          refine ⟨?_, hbefore⟩
          intro hhead
          refine isPrefixOf?_eq_none_iff.1 hstart (hhead.trans ⟨word ++ after, ?_⟩)
          simp

/-- **A word that does not overlap with itself is found at its first occurrence.**  Its first
character is nowhere else in it, so it cannot begin in front of another occurrence and end within
that one. -/
lemma cut?_append {c : Char} {tail before : List Char} (hc : c ∉ tail)
    (h : ¬ (c :: tail) <:+: before) (after : List Char) :
    cut? (c :: tail) (before ++ (c :: tail) ++ after) = some (before, after) := by
  induction before with
  | nil =>
      have hstart : (c :: tail).isPrefixOf? ([] ++ (c :: tail) ++ after) = some after :=
        List.isPrefixOf?_eq_some_iff_append_eq.2 rfl
      rw [List.nil_append, List.cons_append] at hstart ⊢
      rw [cut?, hstart]
  | cons d before ih =>
      rw [List.infix_cons_iff, not_or] at h
      obtain ⟨hstart, hbefore⟩ := h
      have hnone : (c :: tail).isPrefixOf? (d :: (before ++ (c :: tail) ++ after)) = none := by
        rw [isPrefixOf?_eq_none_iff, List.cons_prefix_cons]
        rintro ⟨rfl, htail⟩
        have hhead : before <+: before ++ (c :: tail) ++ after :=
          ⟨c :: tail ++ after, (List.append_assoc ..).symm⟩
        obtain hle | ⟨others, hothers⟩ := List.prefix_or_prefix_of_prefix htail hhead
        · exact hstart (List.cons_prefix_cons.2 ⟨rfl, hle⟩)
        · cases others with
          | nil =>
              rw [List.append_nil] at hothers
              exact hstart (hothers ▸ List.prefix_refl _)
          | cons e others =>
              -- What of the tail reaches over the text before begins with the word standing there.
              rw [← hothers, List.append_assoc, List.prefix_append_right_inj, List.cons_append,
                List.cons_prefix_cons] at htail
              obtain ⟨rfl, -⟩ := htail
              exact hc (hothers ▸ List.mem_append_right _ List.mem_cons_self)
      rw [List.cons_append, List.cons_append, cut?, hnone]
      dsimp only
      rw [ih hbefore]
      rfl

end Words

/-! ## Pieces of a text -/

/-- Texts without a separator that make up a text with the separator between them. -/
structure ArePieces (separator : Char) (ps : List (List Char)) (text : List Char) : Prop where
  ne_nil : ps ≠ []
  not_mem : ∀ p ∈ ps, separator ∉ p
  joined : [separator].intercalate ps = text

variable {separator : Char}

lemma pieces_eq_splitOn (text : List Char) : pieces separator text = text.splitOn separator := by
  induction text with
  | nil => rfl
  | cons c rest ih =>
      rw [pieces, List.splitOn_cons_eq_if_modifyHead, ih]
      have hne : rest.splitOn separator ≠ [] := List.splitOn_ne_nil separator rest
      by_cases hc : c = separator
      · simp [hc]
      · rw [if_neg hc, if_neg (by simpa using hc)]
        cases hrest : rest.splitOn separator with
        | nil => exact absurd hrest hne
        | cons p ps => rfl

/-- **A text has one list of pieces.** -/
theorem arePieces_iff {ps : List (List Char)} {text : List Char} :
    ArePieces separator ps text ↔ ps = pieces separator text := by
  constructor
  · rintro ⟨hne, hfree, rfl⟩
    rw [pieces_eq_splitOn, List.splitOn_intercalate separator hfree hne]
  · rintro rfl
    refine ⟨?_, fun p => not_mem_of_mem_pieces, ?_⟩
    · rw [pieces_eq_splitOn]
      exact List.splitOn_ne_nil separator text
    · rw [pieces_eq_splitOn]
      exact List.intercalate_splitOn separator

/-! ## Behind the last separator -/

lemma afterLast_eq (text : List Char) :
    afterLast separator text = text.rtakeWhile (· ≠ separator) := rfl

lemma not_mem_afterLast (text : List Char) : separator ∉ afterLast separator text := by
  intro hmem
  simpa using List.mem_rtakeWhile_imp hmem

/-- What stands in front of a separator makes no difference to what is behind the last one. -/
lemma afterLast_append_cons (before text : List Char) :
    afterLast separator (before ++ separator :: text) = afterLast separator text := by
  have hreverse : (before ++ separator :: text).reverse
      = text.reverse ++ separator :: before.reverse := by simp
  rw [afterLast, afterLast, hreverse, List.takeWhile_append, List.takeWhile_cons_of_neg (by simp),
    List.append_nil]
  split_ifs with hall
  · rw [(List.takeWhile_prefix _).eq_of_length hall]
  · rfl

lemma afterLast_of_not_mem {text : List Char} (h : separator ∉ text) :
    afterLast separator text = text := by
  rw [afterLast_eq, List.rtakeWhile_eq_self_iff]
  intro c hc
  rw [decide_eq_true_iff]
  rintro rfl
  exact h hc

lemma exists_eq_append_afterLast {text : List Char} (h : separator ∈ text) :
    ∃ before, text = before ++ separator :: afterLast separator text := by
  have hparts : text.rdropWhile (· ≠ separator) ++ afterLast separator text = text :=
    List.rdropWhile_append_rtakeWhile
  have hne : text.rdropWhile (· ≠ separator) ≠ [] := by
    intro hnil
    rw [hnil, List.nil_append] at hparts
    exact not_mem_afterLast text (hparts.symm ▸ h)
  have hlast : (text.rdropWhile (· ≠ separator)).getLast hne = separator := by
    simpa using List.rdropWhile_last_not _ text hne
  have hdrop := List.dropLast_append_getLast hne
  rw [hlast] at hdrop
  refine ⟨(text.rdropWhile (· ≠ separator)).dropLast, ?_⟩
  rw [List.append_cons, hdrop, hparts]

/-- **What is behind the last separator** of a text that has one. -/
theorem afterLast_eq_iff {text behind : List Char} (h : separator ∈ text) :
    afterLast separator text = behind
      ↔ separator ∉ behind ∧ ∃ before, text = before ++ separator :: behind := by
  constructor
  · rintro rfl
    exact ⟨not_mem_afterLast text, exists_eq_append_afterLast h⟩
  · rintro ⟨hbehind, before, rfl⟩
    rw [afterLast_append_cons, afterLast_of_not_mem hbehind]

end Text

namespace Role

/-! ## Units and categories -/

/-- Whether a name lists the units: the pieces that plus signs leave of what is behind the last
hyphen, but for the empty ones. -/
def NamesUnits (units : List String) (name : List Char) : Prop :=
  ∃ before labels ps, name = before ++ '-' :: labels ∧ '-' ∉ labels
    ∧ Text.ArePieces '+' ps labels ∧ units = (ps.filter (· ≠ [])).map String.ofList

/-- Whether a text is the category in a name: not empty, without the marker, and behind the first
marker of the name, where the second one or the end follows. -/
def IsCategoryOf (category name : List Char) : Prop :=
  category ≠ [] ∧ ¬ perCycleMarker <:+: category
    ∧ ∃ before after, name = before ++ perCycleMarker ++ category ++ after
      ∧ ¬ perCycleMarker <:+: before ∧ (after = [] ∨ perCycleMarker <+: after)

/-- Whether a name is used for something else than a category, whatever else it contains. -/
def IsReserved (name : List Char) : Prop :=
  unitDetailStart <+: name ∨ detailedBaseStart <+: name ∨ criticalPathStart <+: name
    ∨ name = fastforwardTime

instance : DecidablePred IsReserved := fun _ => inferInstanceAs (Decidable (_ ∨ _ ∨ _ ∨ _))

/-- Behind the start of the family, a hyphen is at hand. -/
lemma namesUnits_iff {units : List String} {labels : List Char} :
    NamesUnits units (unitDetailStart ++ labels) ↔ units = unitLabels labels := by
  have hstart : unitDetailStart ++ labels = unitDetailStart.dropLast ++ '-' :: labels := by
    rw [List.append_cons]
    exact congrArg (· ++ labels) (by decide)
  have hmem : '-' ∈ unitDetailStart ++ labels := by
    rw [hstart]
    exact List.mem_append_right _ List.mem_cons_self
  have hlast : Text.afterLast '-' (unitDetailStart ++ labels) = Text.afterLast '-' labels := by
    rw [hstart, Text.afterLast_append_cons]
  have hempty : (fun p : List Char => decide (p ≠ [])) = fun p => !p.isEmpty := by
    funext p
    cases p <;> rfl
  rw [unitLabels, ← hlast]
  constructor
  · rintro ⟨before, behind, ps, hname, hbehind, hps, rfl⟩
    rw [(Text.afterLast_eq_iff hmem).2 ⟨hbehind, before, hname⟩, ← Text.arePieces_iff.1 hps, hempty]
  · rintro rfl
    obtain ⟨hbehind, before, hname⟩ := (Text.afterLast_eq_iff hmem).1 rfl
    exact ⟨before, _, _, hname, hbehind, Text.arePieces_iff.2 rfl, by rw [hempty]⟩

lemma cut?_perCycleMarker {before : List Char} (h : ¬ perCycleMarker <:+: before)
    (after : List Char) :
    Text.cut? perCycleMarker (before ++ perCycleMarker ++ after) = some (before, after) :=
  Text.cut?_append (by decide) h after

/-- The text in front of the first marker, or all of a text without one. -/
def beforeMarker (text : List Char) : List Char :=
  match Text.cut? perCycleMarker text with
  | some (before, _) => before
  | none => text

lemma beforeMarker_eq_iff {text before : List Char} :
    beforeMarker text = before ↔ ¬ perCycleMarker <:+: before
      ∧ ∃ after, text = before ++ after ∧ (after = [] ∨ perCycleMarker <+: after) := by
  rw [beforeMarker]
  constructor
  · rintro rfl
    split
    · next hcut =>
        obtain ⟨rfl, hbefore⟩ := Text.cut?_eq_some (by decide) hcut
        exact ⟨hbefore, _, List.append_assoc .., .inr (List.prefix_append ..)⟩
    · next hcut =>
        exact ⟨Text.cut?_eq_none_iff.1 hcut, [], (List.append_nil _).symm, .inl rfl⟩
  · rintro ⟨hbefore, after, rfl, rfl | ⟨others, rfl⟩⟩
    · rw [List.append_nil, Text.cut?_eq_none_iff.2 hbefore]
    · rw [← List.append_assoc, cut?_perCycleMarker hbefore]

/-- **The category of a name is what the markers set apart.** -/
theorem category?_eq_some_iff {category name : List Char} :
    category? name = some category ↔ IsCategoryOf category name := by
  have hcategory (text : List Char) :
      (if (beforeMarker text).isEmpty then none else some (beforeMarker text)) = some category
        ↔ category ≠ [] ∧ beforeMarker text = category := by
    cases hbefore : beforeMarker text with
    | nil => simp [eq_comm]
    | cons c rest => grind
  rw [category?, Option.bind_eq_some_iff]
  constructor
  · rintro ⟨⟨before, text⟩, hcut, h⟩
    obtain ⟨rfl, hbefore⟩ := Text.cut?_eq_some (by decide) hcut
    obtain ⟨hne, h⟩ := (hcategory text).1 h
    obtain ⟨hfree, after, rfl, hafter⟩ := beforeMarker_eq_iff.1 h
    exact ⟨hne, hfree, before, after, (List.append_assoc ..).symm, hbefore, hafter⟩
  · rintro ⟨hne, hfree, before, after, rfl, hbefore, hafter⟩
    refine ⟨(before, category ++ after), ?_, ?_⟩
    · rw [List.append_assoc (before ++ perCycleMarker)]
      exact cut?_perCycleMarker hbefore _
    · exact (hcategory _).2 ⟨hne, beforeMarker_eq_iff.2 ⟨hfree, after, rfl, hafter⟩⟩

/-! ## Families of names -/

/-- A name with one start does not have another, unless one of them starts with the other. -/
lemma isPrefixOf?_eq_none {start other name : List Char} (h : other <+: name)
    (hstart : ¬ start <+: other) (hother : ¬ other <+: start) : start.isPrefixOf? name = none := by
  rw [Text.isPrefixOf?_eq_none_iff]
  intro hname
  rcases List.prefix_or_prefix_of_prefix hname h with hle | hle
  · exact hstart hle
  · exact hother hle

lemma ofChars_unitDetail (labels : List Char) :
    ofChars (unitDetailStart ++ labels) = .unitDetail (unitLabels labels) := by
  have hrest : unitDetailStart.isPrefixOf? (unitDetailStart ++ labels) = some labels :=
    List.isPrefixOf?_eq_some_iff_append_eq.2 rfl
  rw [ofChars, hrest]

lemma ofChars_detailedBase (labels : List Char) :
    ofChars (detailedBaseStart ++ labels)
      = .detailedBase (Text.occurs "FunctionalUnit".toList labels)
        (Text.occurs "DispatchWidth".toList labels) (Text.occurs "DispatchRate".toList labels) := by
  have hrest : detailedBaseStart.isPrefixOf? (detailedBaseStart ++ labels) = some labels :=
    List.isPrefixOf?_eq_some_iff_append_eq.2 rfl
  rw [ofChars, isPrefixOf?_eq_none (List.prefix_append _ _) (by decide) (by decide), hrest]

lemma ofChars_criticalPath {name : List Char} (h : criticalPathStart <+: name) :
    ofChars name = .criticalPath := by
  rw [ofChars, isPrefixOf?_eq_none h (by decide) (by decide),
    isPrefixOf?_eq_none h (by decide) (by decide)]
  exact if_pos (List.isPrefixOf_iff_prefix.2 h)

lemma ofChars_fastforwardTime : ofChars fastforwardTime = .other := by decide

lemma ofChars_of_not_isReserved {name : List Char} (h : ¬ IsReserved name) :
    ofChars name = match category? name with
      | some category => .perCycle (String.ofList category)
      | none => .other := by
  simp only [IsReserved, not_or] at h
  obtain ⟨hunit, hbase, hpath, htime⟩ := h
  rw [ofChars, Text.isPrefixOf?_eq_none_iff.2 hunit, Text.isPrefixOf?_eq_none_iff.2 hbase]
  exact (if_neg (mt List.isPrefixOf_iff_prefix.1 hpath)).trans (if_neg htime)

/-! ## The grammar -/

/-- What the name of a counter with a role looks like. -/
inductive Names : Role → List Char → Prop
  | unitDetail {units : List String} {name : List Char} (hstart : unitDetailStart <+: name)
    (hunits : NamesUnits units name) : Names (.unitDetail units) name
  | detailedBase {functionalUnit dispatchWidth dispatchRate : Bool} {labels : List Char}
    (hunit : functionalUnit = true ↔ "FunctionalUnit".toList <:+: labels)
    (hwidth : dispatchWidth = true ↔ "DispatchWidth".toList <:+: labels)
    (hrate : dispatchRate = true ↔ "DispatchRate".toList <:+: labels) :
    Names (.detailedBase functionalUnit dispatchWidth dispatchRate) (detailedBaseStart ++ labels)
  | criticalPath {name : List Char} (hstart : criticalPathStart <+: name) :
    Names .criticalPath name
  | perCycle {category : String} {name : List Char} (hfree : ¬ IsReserved name)
    (hcategory : IsCategoryOf category.toList name) : Names (.perCycle category) name
  | fastforwardTime : Names .other fastforwardTime
  | other {name : List Char} (hfree : ¬ IsReserved name)
    (hnone : ∀ category, ¬ IsCategoryOf category name) : Names .other name

/-- The role that is read from a name is one that the grammar gives it. -/
lemma names_ofChars (name : List Char) : Names (ofChars name) name := by
  by_cases hreserved : IsReserved name
  · rcases hreserved with ⟨labels, rfl⟩ | ⟨labels, rfl⟩ | hpath | rfl
    · rw [ofChars_unitDetail]
      exact .unitDetail (List.prefix_append _ _) (namesUnits_iff.2 rfl)
    · rw [ofChars_detailedBase]
      exact .detailedBase Text.occurs_iff Text.occurs_iff Text.occurs_iff
    · rw [ofChars_criticalPath hpath]
      exact .criticalPath hpath
    · rw [ofChars_fastforwardTime]
      exact .fastforwardTime
  · rw [ofChars_of_not_isReserved hreserved]
    cases hcategory : category? name with
    | some category =>
        refine .perCycle hreserved ?_
        rw [String.toList_ofList]
        exact category?_eq_some_iff.1 hcategory
    | none =>
        refine .other hreserved ?_
        intro category h
        rw [category?_eq_some_iff.2 h] at hcategory
        cases hcategory

/-- The grammar gives a name no other role than the one that is read from it. -/
lemma ofChars_of_names {role : Role} {name : List Char} (h : Names role name) :
    ofChars name = role := by
  cases h with
  | unitDetail hstart hunits =>
      obtain ⟨labels, rfl⟩ := hstart
      rw [namesUnits_iff.1 hunits, ofChars_unitDetail]
  | detailedBase hunit hwidth hrate =>
      rw [ofChars_detailedBase, Role.detailedBase.injEq]
      exact ⟨Bool.eq_iff_iff.2 (Text.occurs_iff.trans hunit.symm),
        Bool.eq_iff_iff.2 (Text.occurs_iff.trans hwidth.symm),
        Bool.eq_iff_iff.2 (Text.occurs_iff.trans hrate.symm)⟩
  | criticalPath hstart => exact ofChars_criticalPath hstart
  | perCycle hfree hcategory =>
      rw [ofChars_of_not_isReserved hfree, category?_eq_some_iff.2 hcategory]
      exact congrArg Role.perCycle String.ofList_toList
  | fastforwardTime => exact ofChars_fastforwardTime
  | other hfree hnone =>
      have hcategory : category? name = none := by
        rw [Option.eq_none_iff_forall_not_mem]
        intro category h
        exact hnone category (category?_eq_some_iff.1 h)
      rw [ofChars_of_not_isReserved hfree, hcategory]

/-- **Reading a name decides the grammar.** -/
theorem ofName_eq_iff {role : Role} {name : String} :
    ofName name = role ↔ Names role name.toList := by
  constructor
  · rintro rfl
    exact names_ofChars name.toList
  · exact ofChars_of_names

section Families

variable {name : List Char}

lemma names_unitDetail_iff {units : List String} :
    Names (.unitDetail units) name ↔ unitDetailStart <+: name ∧ NamesUnits units name := by
  constructor
  · rintro ⟨hstart, hunits⟩
    exact ⟨hstart, hunits⟩
  · rintro ⟨hstart, hunits⟩
    exact .unitDetail hstart hunits

lemma names_detailedBase_iff {functionalUnit dispatchWidth dispatchRate : Bool} :
    Names (.detailedBase functionalUnit dispatchWidth dispatchRate) name
      ↔ ∃ labels, name = detailedBaseStart ++ labels
        ∧ (functionalUnit = true ↔ "FunctionalUnit".toList <:+: labels)
        ∧ (dispatchWidth = true ↔ "DispatchWidth".toList <:+: labels)
        ∧ (dispatchRate = true ↔ "DispatchRate".toList <:+: labels) := by
  constructor
  · intro h
    cases h with
    | detailedBase hunit hwidth hrate => exact ⟨_, rfl, hunit, hwidth, hrate⟩
  · rintro ⟨labels, rfl, hunit, hwidth, hrate⟩
    exact .detailedBase hunit hwidth hrate

lemma names_criticalPath_iff : Names .criticalPath name ↔ criticalPathStart <+: name := by
  constructor
  · intro h
    cases h with
    | criticalPath hstart => exact hstart
  · exact .criticalPath

lemma names_perCycle_iff {category : String} :
    Names (.perCycle category) name ↔ ¬ IsReserved name ∧ IsCategoryOf category.toList name := by
  constructor
  · intro h
    cases h with
    | perCycle hfree hcategory => exact ⟨hfree, hcategory⟩
  · rintro ⟨hfree, hcategory⟩
    exact .perCycle hfree hcategory

/-- The names that are not used are those that are left. -/
lemma names_other_iff : Names .other name
    ↔ (¬ unitDetailStart <+: name ∧ ¬ detailedBaseStart <+: name ∧ ¬ criticalPathStart <+: name)
      ∧ (name = Role.fastforwardTime ∨ ∀ category, ¬ IsCategoryOf category name) := by
  constructor
  · intro h
    cases h with
    | fastforwardTime => exact ⟨by decide, .inl rfl⟩
    | other hfree hnone =>
        simp only [IsReserved, not_or] at hfree
        obtain ⟨hunit, hbase, hpath, -⟩ := hfree
        exact ⟨⟨hunit, hbase, hpath⟩, .inr hnone⟩
  · rintro ⟨⟨hunit, hbase, hpath⟩, h⟩
    by_cases htime : name = Role.fastforwardTime
    · rw [htime]
      exact .fastforwardTime
    · refine .other ?_ (h.resolve_left htime)
      simp only [IsReserved, not_or]
      exact ⟨hunit, hbase, hpath, htime⟩

end Families

/-- **The grammar of counter names.**  Counters of one issue port, of the detailed base and of the
critical path are told by how their names start, with the units behind the last hyphen and the
labels that occur; of all other names, but for one, those with a category are per-cycle counters,
and the rest are not used.  The category is never empty and has no marker in it, and it is read back
from every name that is made of it and a text without the marker. -/
theorem grammar_ofName (name : String) :
    ((∃ units, ofName name = .unitDetail units) ↔ unitDetailStart <+: name.toList)
    ∧ (∀ units, ofName name = .unitDetail units
        ↔ unitDetailStart <+: name.toList ∧ NamesUnits units name.toList)
    ∧ ((∃ functionalUnit dispatchWidth dispatchRate,
          ofName name = .detailedBase functionalUnit dispatchWidth dispatchRate)
        ↔ detailedBaseStart <+: name.toList)
    ∧ (∀ functionalUnit dispatchWidth dispatchRate,
        ofName name = .detailedBase functionalUnit dispatchWidth dispatchRate
          ↔ ∃ labels, name.toList = detailedBaseStart ++ labels
            ∧ (functionalUnit = true ↔ "FunctionalUnit".toList <:+: labels)
            ∧ (dispatchWidth = true ↔ "DispatchWidth".toList <:+: labels)
            ∧ (dispatchRate = true ↔ "DispatchRate".toList <:+: labels))
    ∧ (ofName name = .criticalPath ↔ criticalPathStart <+: name.toList)
    ∧ (∀ category, ofName name = .perCycle category
        ↔ ¬ IsReserved name.toList ∧ IsCategoryOf category.toList name.toList)
    ∧ (ofName name = .other
        ↔ (¬ unitDetailStart <+: name.toList ∧ ¬ detailedBaseStart <+: name.toList
            ∧ ¬ criticalPathStart <+: name.toList)
          ∧ (name.toList = fastforwardTime ∨ ∀ category, ¬ IsCategoryOf category name.toList))
    ∧ (∀ category, ofName name = .perCycle category →
        category ≠ "" ∧ ¬ perCycleMarker <:+: category.toList)
    ∧ ∀ before category : String, name = before ++ String.ofList perCycleMarker ++ category →
        ¬ perCycleMarker <:+: before.toList → category ≠ "" →
        ¬ perCycleMarker <:+: category.toList → ¬ IsReserved name.toList →
        ofName name = .perCycle category := by
  refine ⟨?_, fun _ => ofName_eq_iff.trans names_unitDetail_iff, ?_,
    fun _ _ _ => ofName_eq_iff.trans names_detailedBase_iff,
    ofName_eq_iff.trans names_criticalPath_iff, fun _ => ofName_eq_iff.trans names_perCycle_iff,
    ofName_eq_iff.trans names_other_iff, ?_, ?_⟩
  · constructor
    · rintro ⟨units, h⟩
      exact (names_unitDetail_iff.1 (ofName_eq_iff.1 h)).1
    · rintro ⟨labels, hname⟩
      exact ⟨_, by rw [ofName, ← hname, ofChars_unitDetail]⟩
  · constructor
    · rintro ⟨_, _, _, h⟩
      obtain ⟨labels, hname, -⟩ := names_detailedBase_iff.1 (ofName_eq_iff.1 h)
      exact ⟨labels, hname.symm⟩
    · rintro ⟨labels, hname⟩
      exact ⟨_, _, _, by rw [ofName, ← hname, ofChars_detailedBase]⟩
  · intro category h
    obtain ⟨-, hne, hfree, -⟩ := names_perCycle_iff.1 (ofName_eq_iff.1 h)
    exact ⟨by simpa using hne, hfree⟩
  · rintro before category rfl hbefore hne hfree hreserved
    refine ofName_eq_iff.2 (.perCycle hreserved ?_)
    refine ⟨by simpa using hne, hfree, before.toList, [], ?_, hbefore, .inl rfl⟩
    simp

/-- A hyphen among the labels, an empty piece and a unit twice; a category that the marker nearly
begins in, and stands around more than once; and a category that is read back. -/
theorem grammar_trickyNames :
    ofName "interval_timer.detailed-cpiBaseFunctionalUnit-port2-Load++Store+Load"
        = .unitDetail ["Load", "Store", "Load"]
      ∧ ofName "core.c.cpicpi.c.cpi.cpiBase" = .perCycle "cpi.c"
      ∧ ofName "core.cp.cpi.cp" = .perCycle ".cp" := by
  refine ⟨?_, ?_, ?_⟩
  · have hpieces : Text.ArePieces '+' ["Load".toList, [], "Store".toList, "Load".toList]
        "Load++Store+Load".toList :=
      ⟨by decide +kernel, by decide +kernel, by decide +kernel⟩
    obtain ⟨-, hunits, -⟩ :=
      grammar_ofName "interval_timer.detailed-cpiBaseFunctionalUnit-port2-Load++Store+Load"
    refine (hunits _).2 ⟨by decide +kernel, ?_⟩
    exact ⟨"interval_timer.detailed-cpiBaseFunctionalUnit-port2".toList, _, _, by decide +kernel,
      by decide +kernel, hpieces, by decide +kernel⟩
  · have hfree : ¬ IsReserved "core.c.cpicpi.c.cpi.cpiBase".toList := by decide +kernel
    obtain ⟨-, -, -, -, -, hcategory, -⟩ := grammar_ofName "core.c.cpicpi.c.cpi.cpiBase"
    refine (hcategory _).2 ⟨hfree, by decide +kernel, by decide +kernel, ?_⟩
    exact ⟨"core.c".toList, ".cpi.cpiBase".toList, by decide +kernel⟩
  · obtain ⟨-, -, -, -, -, -, -, -, hback⟩ := grammar_ofName "core.cp.cpi.cp"
    exact hback "core.cp" ".cp" (by decide +kernel) (by decide +kernel) (by decide +kernel)
      (by decide +kernel) (by decide +kernel)

end Role

end CycleAccounting
