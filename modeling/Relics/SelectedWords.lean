import Mathlib.Data.List.Nodup

namespace SelectedWords

/-!
# Words selected from a table

A report goes through a table and writes the word of every selected entry
with a separator behind it.  Where no word has the separator in it, the text
of a report tells its words; where the words of a table are distinct, the
words tell which of its entries were selected.
-/

variable {Entry Letter : Type}

/-- The words, each with a separator behind it. -/
def separated
    (separator : Letter)
    (words : List (List Letter)) :
    List Letter :=
  words.flatMap fun word => word ++ [separator]

/-- The words of the selected entries in the order of the table. -/
def selected
    (word : Entry → List Letter)
    (isSelected : Entry → Bool)
    (table : List Entry) :
    List (List Letter) :=
  (table.filter isSelected).map word

section Separated

variable {separator : Letter}

/-- A report of one word. -/
theorem separated_singleton
    (word : List Letter) :
    separated separator [word] = word ++ [separator] :=
  List.flatMap_singleton _ word

/-- Reports are written one behind the other. -/
theorem separated_append
    (words later : List (List Letter)) :
    separated separator (words ++ later) =
      separated separator words ++ separated separator later :=
  List.flatMap_append

/-- The first separator ends the first word. -/
theorem append_separator_inj
    {word other rest later : List Letter}
    (clean : separator ∉ word)
    (cleanOther : separator ∉ other) :
    word ++ separator :: rest = other ++ separator :: later ↔
      word = other ∧ rest = later := by
  constructor
  · intro same
    induction word generalizing other with
    | nil =>
        cases other with
        | nil =>
            exact ⟨rfl, List.tail_eq_of_cons_eq same⟩
        | cons letter other =>
            have isSeparator : separator = letter :=
              List.head_eq_of_cons_eq same
            exact absurd (isSeparator ▸ List.mem_cons_self) cleanOther
    | cons letter word inductionHypothesis =>
        cases other with
        | nil =>
            have isSeparator : letter = separator :=
              List.head_eq_of_cons_eq same
            exact absurd (isSeparator ▸ List.mem_cons_self) clean
        | cons letter' other =>
            have sameLetter : letter = letter' :=
              List.head_eq_of_cons_eq same
            have sameRest := List.tail_eq_of_cons_eq same
            obtain ⟨sameWord, sameLater⟩ :=
              inductionHypothesis
                (fun inside => clean (List.mem_cons_of_mem _ inside))
                (fun inside => cleanOther (List.mem_cons_of_mem _ inside))
                sameRest
            exact ⟨by rw [sameLetter, sameWord], sameLater⟩
  · rintro ⟨rfl, rfl⟩
    rfl

/-- The text of a report tells its words. -/
theorem separated_inj
    {words others : List (List Letter)}
    (clean : ∀ word ∈ words, separator ∉ word)
    (cleanOthers : ∀ other ∈ others, separator ∉ other) :
    separated separator words = separated separator others ↔
      words = others := by
  constructor
  · intro same
    induction words generalizing others with
    | nil =>
        cases others with
        | nil =>
            rfl
        | cons other others =>
            simp [separated] at same
    | cons word words inductionHypothesis =>
        cases others with
        | nil =>
            simp [separated] at same
        | cons other others =>
            simp only [separated, List.flatMap_cons, List.append_assoc,
              List.singleton_append] at same
            rw [List.forall_mem_cons] at clean cleanOthers
            rw [append_separator_inj clean.1 cleanOthers.1] at same
            rw [same.1, inductionHypothesis clean.2 cleanOthers.2 same.2]
  · rintro rfl
    rfl

end Separated

section Selected

variable {word : Entry → List Letter}
variable {isSelected : Entry → Bool}
variable {table : List Entry}

/-- One more entry of the table. -/
theorem selected_concat
    (entry : Entry) :
    selected word isSelected (table ++ [entry]) =
      selected word isSelected table ++
        if isSelected entry then [word entry] else [] := by
  rw [selected, selected, List.filter_append, List.map_append,
    List.filter_singleton]
  cases isSelected entry with
  | false =>
      rfl
  | true =>
      rfl

/-- Only words of the table are selected. -/
theorem forall_mem_selected
    {property : List Letter → Prop}
    (all : ∀ entry ∈ table, property (word entry)) :
    ∀ chosen ∈ selected word isSelected table, property chosen := by
  intro chosen inSelected
  obtain ⟨entry, inFilter, rfl⟩ := List.mem_map.mp inSelected
  exact all entry (List.mem_of_mem_filter inFilter)

/-- Of distinct words, those of the selected entries are selected. -/
theorem mem_selected
    (distinct : (table.map word).Nodup)
    {entry : Entry}
    (inTable : entry ∈ table) :
    word entry ∈ selected word isSelected table ↔
      isSelected entry = true := by
  constructor
  · intro inSelected
    obtain ⟨other, inFilter, sameWord⟩ := List.mem_map.mp inSelected
    obtain ⟨otherInTable, otherSelected⟩ := List.mem_filter.mp inFilter
    have same : other = entry :=
      List.inj_on_of_nodup_map distinct otherInTable inTable sameWord
    exact same ▸ otherSelected
  · intro entrySelected
    exact
      List.mem_map_of_mem (List.mem_filter.mpr ⟨inTable, entrySelected⟩)

/-- Distinct words tell which entries were selected. -/
theorem selected_inj
    {isSelected' : Entry → Bool}
    (distinct : (table.map word).Nodup) :
    selected word isSelected table = selected word isSelected' table ↔
      ∀ entry ∈ table, isSelected entry = isSelected' entry := by
  constructor
  · intro same entry inTable
    rw [Bool.eq_iff_iff, ← mem_selected distinct inTable, same,
      mem_selected distinct inTable]
  · intro agree
    rw [selected, selected, List.filter_congr agree]

end Selected

end SelectedWords
