import Relics.PrintPieces

namespace Relics.Print

/-!
# Whether the format interpreter stops at the terminator

Read from left to right, each byte of a format is text or belongs to a
conversion.  The interpreter stops at the terminator of every format that does
not end right after the `l` or the `ll` of a conversion.  There it breaks out
of the switch with the pointer at the terminator and then steps over it.  The
loop does not end either where an argument makes a conversion fault.
-/

open ByteMemory

/-- What the bytes read so far have begun. -/
inductive Place where
  | text
  | conversion
  | long
  | longLong
  deriving DecidableEq, Repr

/-- The place after one more character; an unknown one is text. -/
def Place.after (place : Place) (char : Char) : Place :=
  match place with
  | text =>
      if char = '%' then conversion else text
  | conversion =>
      if char = '0' then conversion else if char = 'l' then long else text
  | long =>
      if char = 'l' then longLong
      else if char = '%' then conversion
      else text
  | longLong =>
      if char = '%' then conversion else text

/-- The place after a sequence of bytes. -/
def Place.afterAll (place : Place) : List UInt8 → Place
  | [] => place
  | byte :: rest => (place.after (Char.ofUInt8 byte)).afterAll rest

/-- The place right after the `l` or the `ll` of a conversion. -/
def Place.IsLong (place : Place) : Prop :=
  place = long ∨ place = longLong

instance (place : Place) : Decidable place.IsLong :=
  inferInstanceAs (Decidable (_ ∨ _))

/-- The type that a character at a place asks for. -/
def Place.asks (place : Place) (char : Char) : Option CType :=
  match place, char with
  | conversion, 'i' | conversion, 'd' | conversion, 'c' => some .int
  | conversion, 'u' | conversion, 'b' | conversion, 'X' => some .unsignedInt
  | conversion, 'x' | conversion, 'o' => some .unsignedInt
  | conversion, 'p' => some .pointer
  | conversion, 's' => some .string
  | long, 'u' | long, 'b' | long, 'x' => some .unsignedLong
  | long, 'd' => some .long
  | longLong, 'u' => some .unsignedLongLong
  | longLong, 'd' => some .longLong
  | _, _ => none

/-- The types that a sequence of bytes asks for, from a place on. -/
def Place.asked (place : Place) : List UInt8 → List CType
  | [] => []
  | byte :: rest =>
      (place.asks (Char.ofUInt8 byte)).toList ++
        (place.after (Char.ofUInt8 byte)).asked rest

/-- The arguments have the types that a format asks for. -/
def Fit (bytes : List UInt8) (arguments : List Argument) : Prop :=
  Place.text.asked bytes <+: arguments.map Argument.type

instance (bytes : List UInt8) (arguments : List Argument) :
    Decidable (Fit bytes arguments) :=
  inferInstanceAs (Decidable (_ <+: _))

/-- The arguments that the conversions of a format take, from a place on -/
def Place.taken
    (place : Place)
    (bytes : List UInt8)
    (arguments : List Argument) :
    List Argument :=
  arguments.take (place.asked bytes).length

/--
The bytes end right after the `l` or the `ll` of a conversion, or an argument
that they take makes `lltoa` fault.
-/
def Fails
    (place : Place)
    (bytes : List UInt8)
    (arguments : List Argument) :
    Prop :=
  (place.afterAll bytes).IsLong ∨
    ∃ argument ∈ place.taken bytes arguments, ¬ argument.Exact

/-- The loop ends and no byte after the terminator has been read. -/
def StopsAtTerminator
    (leftOver : List UInt8)
    (format : Memory)
    (length : Nat)
    (arguments : List Argument) :
    Prop :=
  ∃ fuel final,
    actualPrint leftOver fuel format arguments = .returned final ∧
      ∀ read ∈ final.reads, read ≤ length

section Tables

theorem type_conversion
    (leftOver : List UInt8)
    (char : Char) :
    (conversion leftOver char).map Conversion.type =
      Place.conversion.asks char := by
  unfold conversion Place.asks
  split <;> simp_all

theorem type_longConversion
    (leftOver : List UInt8)
    (char : Char) :
    (longConversion leftOver char).map Conversion.type =
      Place.long.asks char := by
  unfold longConversion Place.asks
  split <;> simp_all

theorem type_longLongConversion
    (leftOver : List UInt8)
    (char : Char) :
    (longLongConversion leftOver char).map Conversion.type =
      Place.longLong.asks char := by
  unfold longLongConversion Place.asks
  split <;> simp_all

/-- A conversion returns except on a number that `lltoa` faults on. -/
def Conversion.Returns (conversion : Conversion) : Prop :=
  ∀ value zeroPad,
    (conversion.render value zeroPad).isSome = true ↔
      Argument.Exact ⟨conversion.type, value⟩

/-- A signed number is printed exactly if `print_long_long` returns. -/
theorem returns_map_iff
    {printed : Option (List UInt8)}
    {zeroPad : Bool}
    {exact' : Prop}
    (returns : printed.isSome = true ↔ exact') :
    (printed.map fun text => (text, zeroPad)).isSome = true ↔ exact' := by
  rwa [Option.isSome_map]

theorem returns_conversion
    {leftOver : List UInt8}
    {char : Char}
    {known : Conversion}
    (found : conversion leftOver char = some known) :
    known.Returns := by
  intro value zeroPad
  unfold conversion at found
  split at found
  all_goals cases found
  all_goals
    first
    | exact iff_of_true rfl nofun
    | exact returns_map_iff
        (iff_of_true (printInt_isSome leftOver value) nofun)

theorem returns_longConversion
    {leftOver : List UInt8}
    {char : Char}
    {known : Conversion}
    (found : longConversion leftOver char = some known) :
    known.Returns := by
  intro value zeroPad
  unfold longConversion at found
  split at found
  all_goals cases found
  all_goals
    first
    | exact iff_of_true rfl nofun
    | exact returns_map_iff (isSome_plain_iff leftOver .ld value)

theorem returns_longLongConversion
    {leftOver : List UInt8}
    {char : Char}
    {known : Conversion}
    (found : longLongConversion leftOver char = some known) :
    known.Returns := by
  intro value zeroPad
  unfold longLongConversion at found
  split at found
  all_goals cases found
  all_goals
    first
    | exact iff_of_true rfl nofun
    | exact returns_map_iff (isSome_plain_iff leftOver .lld value)

/-- A character that asks for an argument completes its conversion. -/
theorem after_of_asks
    {place : Place}
    {char : Char}
    {type : CType}
    (asks : place.asks char = some type) :
    place.after char = .text := by
  unfold Place.asks at asks
  split at asks <;> simp_all [Place.after]

/-- A byte that asks for nothing leaves the arguments to the rest. -/
theorem fails_of_asks_none
    {place : Place}
    {byte : UInt8}
    {rest : List UInt8}
    {arguments : List Argument}
    (asks : place.asks (Char.ofUInt8 byte) = none) :
    Fails place (byte :: rest) arguments ↔
      Fails (place.after (Char.ofUInt8 byte)) rest arguments := by
  simp only [Fails, Place.afterAll, Place.taken, Place.asked, asks,
    Option.toList_none, List.nil_append]

/-- A byte that asks for an argument fails on it or leaves the rest to fail. -/
theorem fails_of_asks_some
    {place : Place}
    {byte : UInt8}
    {rest : List UInt8}
    {type : CType}
    {argument : Argument}
    {arguments : List Argument}
    (asks : place.asks (Char.ofUInt8 byte) = some type) :
    Fails place (byte :: rest) (argument :: arguments) ↔
      ¬ argument.Exact ∨ Fails .text rest arguments := by
  simp only [Fails, Place.afterAll, Place.taken, Place.asked, asks,
    after_of_asks asks, Option.toList_some, List.singleton_append,
    List.length_cons, List.take_succ_cons, List.exists_mem_cons_iff]
  rw [or_left_comm]

end Tables

section Turns

variable
    {leftOver : List UInt8}
    {format : Memory}
    {last : Nat}
    {label : Label}
    {scan : Scan}
    {rest : List UInt8}

/-- The place in the format that a label stands for. -/
def Label.place : Label → Place
  | .loop => .text
  | .format => .conversion

/-- The offset of the next byte that is read after a label. -/
def Scan.next (scan : Scan) : Label → Nat
  | .loop => scan.offset
  | .format => scan.offset + 1

/-- The bytes of the format that are ahead, and the arguments they ask for. -/
structure Ahead
    (format : Memory)
    (last : Nat)
    (place : Place)
    (next : Nat)
    (scan : Scan)
    (rest : List UInt8) :
    Prop where
  spells : Spells format next rest
  ends : next + rest.length = last
  inside : ∀ read ∈ scan.reads, read ≤ last
  fits : place.asked rest <+: scan.arguments.map Argument.type

/-- A bound on the turns that are still to come. -/
def remaining (label : Label) (rest : List UInt8) : Nat :=
  match label with
  | .loop => 2 * rest.length + 1
  | .format => 2 * rest.length + 2

/--
What a turn may do, with fewer than `bound` turns to follow; `cut` says that
the bytes ahead fail.
-/
inductive Progress
    (format : Memory)
    (last : Nat)
    (cut : Prop)
    (bound : Nat) :
    Turn →
    Prop where
  | returns
      {scan : Scan}
      (inside : ∀ read ∈ scan.reads, read ≤ last)
      (complete : ¬ cut) :
      Progress format last cut bound (.returned scan)
  | moves
      {label : Label}
      {scan : Scan}
      {rest : List UInt8}
      (here : Ahead format last label.place (scan.next label) scan rest)
      (same : Fails label.place rest scan.arguments ↔ cut)
      (closer : remaining label rest < bound) :
      Progress format last cut bound (.goesOn label scan)
  | reports
      {byte : UInt8}
      {scan : Scan}
      {rest : List UInt8}
      (here :
        ∀ printed,
          Ahead format last .text scan.backward.forward.offset
            (scan.print printed).backward.forward rest)
      (same : Fails .text rest scan.arguments ↔ cut)
      (closer : remaining .loop rest < bound) :
      Progress format last cut bound (.unimplemented byte scan)
  | overruns
      {scan : Scan}
      (beyond : scan.offset = last + 1)
      (stepsOver : cut) :
      Progress format last cut bound (.goesOn .loop scan)
  | faults
      {scan : Scan}
      (inexact : cut) :
      Progress format last cut bound (.faulted scan)

/-- Printing and moving the pointer leave what is ahead of an offset. -/
theorem Ahead.congr
    {place : Place}
    {next : Nat}
    {other : Scan}
    (ahead : Ahead format last place next scan rest)
    (reads : other.reads = scan.reads)
    (arguments : other.arguments = scan.arguments) :
    Ahead format last place next other rest :=
  ⟨ahead.spells, ahead.ends, reads ▸ ahead.inside, arguments ▸ ahead.fits⟩

/-- A scan that breaks out of the switch goes on with the bytes ahead. -/
theorem break_progress
    {cut : Prop}
    {bound : Nat}
    (ahead : Ahead format last .text (scan.offset + 1) scan rest)
    (same : Fails .text rest scan.arguments ↔ cut)
    (closer : remaining .loop rest < bound) :
    Progress format last cut bound scan.break :=
  .moves (ahead.congr rfl rfl) same closer

/-- An argument of the type that is asked for can be taken. -/
theorem vaArg_fits
    {type : CType}
    {types : List CType}
    {arguments : List Argument}
    (fits : type :: types <+: arguments.map Argument.type) :
    ∃ value remainder,
      arguments = ⟨type, value⟩ :: remainder ∧
        vaArg type arguments = some (value, remainder) ∧
          types <+: remainder.map Argument.type := by
  cases arguments with
  | nil =>
      simp at fits
  | cons argument remainder =>
      obtain ⟨given, value⟩ := argument
      rw [List.map_cons, List.cons_prefix_cons] at fits
      obtain ⟨same, restFits⟩ := fits
      subst same
      exact ⟨value, remainder, rfl, by simp [vaArg], restFits⟩

section Switch

variable
    {place : Place}
    {byte : UInt8}
    {bound : Nat}

/-- A byte up to the terminator may be read. -/
theorem inside_read
    (here : scan.offset ≤ last)
    (inside : ∀ read ∈ scan.reads, read ≤ last) :
    ∀ read ∈ scan.read.reads, read ≤ last := by
  simp only [Scan.read, List.forall_mem_cons]
  exact ⟨here, inside⟩

/-- The next byte is there to be read. -/
theorem Ahead.read
    (ahead : Ahead format last place (scan.offset + 1) scan (byte :: rest)) :
    format scan.forward.read.offset = byte ∧
      byte ≠ 0 ∧
      Ahead format last place scan.forward.read.offset scan.forward.read
        (byte :: rest) := by
  obtain ⟨found, nonzero, -⟩ := ahead.spells
  have ends := ahead.ends
  have here : scan.forward.offset ≤ last := by
    simp only [Scan.forward]
    omega
  exact
    ⟨found, nonzero, ahead.spells, ends, inside_read here ahead.inside,
      ahead.fits⟩

/-- After the last byte the terminator is read. -/
theorem Ahead.read_terminator
    (ahead : Ahead format last place (scan.offset + 1) scan []) :
    format scan.forward.read.offset = 0 ∧
      scan.forward.read.offset = last ∧
      ∀ read ∈ scan.forward.read.reads, read ≤ last := by
  have atEnd : scan.offset + 1 = last := ahead.ends
  exact
    ⟨ahead.spells, atEnd, inside_read (Nat.le_of_eq atEnd) ahead.inside⟩

/-- A byte that asks for nothing leaves the arguments to the rest. -/
theorem Ahead.step
    (ahead : Ahead format last place scan.offset scan (byte :: rest))
    (asks : place.asks (Char.ofUInt8 byte) = none) :
    Ahead format last (place.after (Char.ofUInt8 byte)) (scan.offset + 1)
      scan rest := by
  have fits := ahead.fits
  have ends := ahead.ends
  rw [Place.asked, asks] at fits
  rw [List.length_cons, Nat.add_comm rest.length 1, ← Nat.add_assoc] at ends
  exact ⟨ahead.spells.2.2, ends, ahead.inside, fits⟩

/-- A conversion that finds its argument goes on after it, or faults. -/
theorem convert_progress
    {conversion : Conversion}
    (returns : conversion.Returns)
    (ahead : Ahead format last place scan.offset scan (byte :: rest))
    (asks : place.asks (Char.ofUInt8 byte) = some conversion.type)
    (closer : remaining .loop rest < bound) :
    Progress format last (Fails place (byte :: rest) scan.arguments) bound
      (convert conversion scan) := by
  have fits := ahead.fits
  have ends := ahead.ends
  obtain ⟨-, -, spells⟩ := ahead.spells
  simp only [Place.asked, asks, after_of_asks asks, Option.toList_some,
    List.singleton_append] at fits
  rw [List.length_cons, Nat.add_comm rest.length 1, ← Nat.add_assoc] at ends
  obtain ⟨value, arguments, given, taken, restFits⟩ := vaArg_fits fits
  rw [given, fails_of_asks_some asks]
  have exactly := returns value scan.zeroPad
  simp only [convert, taken]
  cases rendered : conversion.render value scan.zeroPad with
  | none =>
      rw [rendered] at exactly
      refine .faults (.inl (mt exactly.mpr ?_))
      exact Bool.false_ne_true
  | some result =>
      rw [rendered] at exactly
      refine break_progress ⟨spells, ends, ahead.inside, restFits⟩ ?_ closer
      exact (or_iff_right (not_not_intro (exactly.mp rfl))).symm

/-- A character that is no conversion is ahead as text. -/
theorem Ahead.asText
    {next : Nat}
    (ahead : Ahead format last place next scan (byte :: rest))
    (unknown : place.asks (Char.ofUInt8 byte) = none)
    (same :
      place.after (Char.ofUInt8 byte) =
        Place.text.after (Char.ofUInt8 byte)) :
    Ahead format last .text next scan (byte :: rest) := by
  have fits := ahead.fits
  simp only [Place.asked, unknown, same] at fits
  exact ⟨ahead.spells, ahead.ends, ahead.inside, fits⟩

/-- A character that is no conversion after `%l` is read again as text. -/
theorem unknown_progress
    (ahead : Ahead format last place scan.offset scan (byte :: rest))
    (stepped : scan.backward.forward.offset = scan.offset)
    (unknown : place.asks (Char.ofUInt8 byte) = none)
    (same :
      place.after (Char.ofUInt8 byte) =
        Place.text.after (Char.ofUInt8 byte))
    (closer : remaining .loop (byte :: rest) < bound) :
    Progress format last (Fails place (byte :: rest) scan.arguments) bound
      scan.backward.break := by
  have text := ahead.asText unknown same
  rw [← stepped] at text
  rw [fails_of_asks_none unknown, same]
  exact
    break_progress (text.congr rfl rfl) (fails_of_asks_none rfl) closer

/-- A character that is no conversion after `%` is reported. -/
theorem report_progress
    {cut : Prop}
    (ahead : Ahead format last .text scan.offset scan rest)
    (stepped : scan.backward.forward.offset = scan.offset)
    (same : Fails .text rest scan.arguments ↔ cut)
    (closer : remaining .loop rest < bound) :
    Progress format last cut bound (.unimplemented byte scan) := by
  refine .reports (fun printed => ?_) same closer
  rw [stepped]
  exact ahead.congr rfl rfl

/-- The cases after `%ll` go on, unless the format ends there. -/
theorem longLongCase_progress
    (ahead : Ahead format last .longLong (scan.offset + 1) scan rest)
    (closer : remaining .loop rest < bound) :
    Progress format last (Fails .longLong rest scan.arguments) bound
      (longLongCase leftOver format scan) := by
  cases rest with
  | nil =>
      obtain ⟨terminator, atEnd, -⟩ := ahead.read_terminator
      rw [longLongCase, if_pos terminator]
      exact .overruns (congrArg Nat.succ atEnd) (.inl (.inr rfl))
  | cons byte rest =>
      obtain ⟨found, nonzero, here⟩ := ahead.read
      have types := type_longLongConversion leftOver (Char.ofUInt8 byte)
      rw [longLongCase, found, if_neg nonzero, current, found]
      cases known : longLongConversion leftOver (Char.ofUInt8 byte) with
      | none =>
          rw [known] at types
          exact unknown_progress here rfl types.symm rfl closer
      | some conversion =>
          rw [known] at types
          apply convert_progress (returns_longLongConversion known) here
            types.symm
          simp only [remaining, List.length_cons] at closer ⊢
          omega

/-- The cases after `%l` go on, unless the format ends there. -/
theorem longCase_progress
    (ahead : Ahead format last .long (scan.offset + 1) scan rest)
    (closer : remaining .loop rest < bound) :
    Progress format last (Fails .long rest scan.arguments) bound
      (longCase leftOver format scan) := by
  cases rest with
  | nil =>
      obtain ⟨terminator, atEnd, -⟩ := ahead.read_terminator
      rw [longCase, if_pos terminator]
      exact .overruns (congrArg Nat.succ atEnd) (.inl (.inl rfl))
  | cons byte rest =>
      obtain ⟨found, nonzero, here⟩ := ahead.read
      have types := type_longConversion leftOver (Char.ofUInt8 byte)
      have shorter : remaining .loop rest < bound := by
        simp only [remaining, List.length_cons] at closer ⊢
        omega
      rw [longCase, found, if_neg nonzero, current, found]
      by_cases again : Char.ofUInt8 byte = 'l'
      · have asks : Place.long.asks (Char.ofUInt8 byte) = none := by
          rw [again]
          rfl
        have step := here.step asks
        rw [again] at step
        rw [if_pos again, fails_of_asks_none asks, again]
        exact longLongCase_progress step shorter
      · rw [if_neg again]
        cases known : longConversion leftOver (Char.ofUInt8 byte) with
        | none =>
            rw [known] at types
            exact
              unknown_progress here rfl types.symm (if_neg again) closer
        | some conversion =>
            rw [known] at types
            exact
              convert_progress (returns_longConversion known) here types.symm
                shorter

/-- A turn from the label `format` makes progress. -/
theorem turn_format_progress
    (ahead : Ahead format last .conversion (scan.offset + 1) scan rest) :
    Progress format last (Fails .conversion rest scan.arguments)
      (remaining .format rest) (turn leftOver format .format scan) := by
  cases rest with
  | nil =>
      obtain ⟨terminator, atEnd, inside⟩ := ahead.read_terminator
      have reported :
          turn leftOver format .format scan =
            .unimplemented 0 scan.forward.read := by
        simp only [turn, current, terminator]
        rfl
      rw [reported]
      have text :
          Ahead format last .text scan.forward.read.offset
            scan.forward.read [] :=
        ⟨terminator, atEnd, inside, List.nil_prefix⟩
      have complete (place : Place) (short : ¬ place.IsLong) :
          ¬ Fails place [] scan.arguments := by
        rintro (cut | ⟨argument, member, -⟩)
        · exact short cut
        · exact absurd member List.not_mem_nil
      have same :
          Fails .text [] scan.arguments ↔ Fails .conversion [] scan.arguments :=
        iff_of_false (complete _ (by decide)) (complete _ (by decide))
      exact report_progress text rfl same (Nat.lt_succ_self _)
  | cons byte rest =>
      obtain ⟨found, nonzero, here⟩ := ahead.read
      have types := type_conversion leftOver (Char.ofUInt8 byte)
      have shorter : remaining .loop rest < remaining .format (byte :: rest) := by
        simp only [remaining, List.length_cons]
        omega
      rw [turn, current, found]
      by_cases percent : Char.ofUInt8 byte = '%'
      · have asks : Place.conversion.asks (Char.ofUInt8 byte) = none := by
          rw [percent]
          rfl
        have step := here.step asks
        rw [percent] at step
        rw [if_pos percent, fails_of_asks_none asks, percent]
        exact break_progress (step.congr rfl rfl) Iff.rfl shorter
      · rw [if_neg percent]
        by_cases zero : Char.ofUInt8 byte = '0'
        · have asks : Place.conversion.asks (Char.ofUInt8 byte) = none := by
            rw [zero]
            rfl
          have step := here.step asks
          rw [zero] at step
          rw [if_pos zero, fails_of_asks_none asks, zero]
          refine .moves (step.congr rfl rfl) Iff.rfl ?_
          simp only [remaining, List.length_cons]
          omega
        · rw [if_neg zero]
          by_cases long : Char.ofUInt8 byte = 'l'
          · have asks : Place.conversion.asks (Char.ofUInt8 byte) = none := by
              rw [long]
              rfl
            have step := here.step asks
            rw [long] at step
            rw [if_pos long, fails_of_asks_none asks, long]
            exact longCase_progress step shorter
          · rw [if_neg long]
            cases known : conversion leftOver (Char.ofUInt8 byte) with
            | none =>
                rw [known] at types
                have same :
                    Place.conversion.after (Char.ofUInt8 byte) =
                      Place.text.after (Char.ofUInt8 byte) := by
                  simp only [Place.after, percent, zero, long, ↓reduceIte]
                rw [fails_of_asks_none types.symm, same]
                exact
                  report_progress (here.asText types.symm same) rfl
                    (fails_of_asks_none rfl) (Nat.lt_succ_self _)
            | some conversion =>
                rw [known] at types
                exact
                  convert_progress (returns_conversion known) here types.symm
                    shorter

end Switch

/-- A turn from the test of the loop makes progress. -/
theorem turn_loop_progress
    (ahead : Ahead format last .text scan.offset scan rest) :
    Progress format last (Fails .text rest scan.arguments)
      (remaining .loop rest) (turn leftOver format .loop scan) := by
  have ends := ahead.ends
  have inside : ∀ read ∈ scan.read.reads, read ≤ last :=
    inside_read (by omega) ahead.inside
  cases rest with
  | nil =>
      have terminator : format scan.read.offset = 0 := ahead.spells
      rw [turn, if_pos terminator]
      refine .returns inside ?_
      rintro (cut | ⟨argument, member, -⟩)
      · exact absurd cut (by decide)
      · exact absurd member List.not_mem_nil
  | cons byte rest =>
      obtain ⟨found, nonzero, spells⟩ := ahead.spells
      have readFound : format scan.read.offset = byte := found
      have here :
          Ahead format last .text scan.read.offset scan.read (byte :: rest) :=
        ⟨ahead.spells, ends, inside, ahead.fits⟩
      have step := here.step rfl
      rw [turn, readFound, if_neg nonzero, current, readFound,
        fails_of_asks_none rfl]
      by_cases percent : Char.ofUInt8 byte = '%'
      · rw [percent] at step
        rw [if_pos percent, percent]
        refine .moves step Iff.rfl ?_
        simp only [remaining, List.length_cons]
        omega
      · have text : Place.text.after (Char.ofUInt8 byte) = .text :=
          if_neg percent
        rw [text] at step
        rw [if_neg percent, text]
        refine break_progress (step.congr rfl rfl) Iff.rfl ?_
        simp only [remaining, List.length_cons]
        omega

/-- A turn from either label makes progress. -/
theorem turn_progress
    (leftOver : List UInt8)
    (ahead : Ahead format last label.place (scan.next label) scan rest) :
    Progress format last (Fails label.place rest scan.arguments)
      (remaining label rest) (turn leftOver format label scan) := by
  cases label with
  | loop =>
      exact turn_loop_progress ahead
  | format =>
      exact turn_format_progress ahead

end Turns

section Runs

variable
    {leftOver : List UInt8}
    {format : Memory}
    {last : Nat}
    {label : Label}
    {scan : Scan}
    {rest : List UInt8}

/-- The pieces of the message for a conversion that is not known. -/
def unimplementedPieces (byte : UInt8) : List Piece :=
  [.literal ⟨chars "Format unimplemented: ", by decide, by decide⟩,
    .conversion false .c byte.toInt8.toInt32,
    .literal ⟨chars "\n", by decide, by decide⟩]

/-- `printk` prints its message for a conversion it does not know. -/
theorem runFrom_unimplemented
    (leftOver : List UInt8)
    (byte : UInt8)
    (spare : Nat) :
    ∃ final,
      runFrom leftOver (spare + 26) unimplementedFormat .loop
        (.start [promoted byte]) = .returned final := by
  have spells :
      Spells unimplementedFormat 0 (textOf (unimplementedPieces byte) ++ []) :=
    spells_spelled [] _ (by decide)
  obtain ⟨passed, run, after⟩ :=
    runFrom_pieces leftOver (.start [promoted byte])
      (unimplementedPieces byte) (List.forall_mem_singleton.mpr nofun) spells
      rfl (spare + 1)
  have terminator : unimplementedFormat passed.read.offset = 0 := by
    change unimplementedFormat passed.offset = 0
    rw [after.offset]
    exact spells_append spells
  refine ⟨passed.read, run.trans ?_⟩
  rw [runFrom, turn, if_pos terminator]

/-- A format that does not fail is left at its terminator. -/
theorem runFrom_returns
    {fuel : Nat}
    (whole : ¬ Fails label.place rest scan.arguments)
    (ahead : Ahead format last label.place (scan.next label) scan rest)
    (enough : remaining label rest + 26 ≤ fuel) :
    ∃ final,
      runFrom leftOver fuel format label scan = .returned final ∧
        ∀ read ∈ final.reads, read ≤ last := by
  induction fuel generalizing label scan rest with
  | zero =>
      omega
  | succ fuel inductionHypothesis =>
      have progress := turn_progress leftOver ahead
      rw [runFrom]
      generalize turn leftOver format label scan = turned at progress
      cases progress with
      | @returns final inside complete =>
          exact ⟨final, rfl, inside⟩
      | moves here same closer =>
          exact inductionHypothesis (same.not.mpr whole) here (by omega)
      | @reports byte scan rest here same closer =>
          obtain ⟨spare, rfl⟩ : ∃ spare, fuel = spare + 26 :=
            ⟨fuel - 26, by omega⟩
          obtain ⟨nested, nestedRun⟩ :=
            runFrom_unimplemented leftOver byte spare
          have loopAhead :
              Ahead format last Label.loop.place
                ((scan.print nested.output).backward.forward.next .loop)
                (scan.print nested.output).backward.forward rest :=
            here nested.output
          simp only [nestedRun]
          exact
            inductionHypothesis (same.not.mpr whole) loopAhead (by omega)
      | overruns beyond stepsOver =>
          exact absurd stepsOver whole
      | faults inexact =>
          exact absurd inexact whole

/-- What a turn leads to still has the offsets in its record. -/
def Turn.Records (reads : List Nat) : Turn → Prop
  | .goesOn _ scan => reads ⊆ scan.reads
  | .unimplemented _ scan => reads ⊆ scan.reads
  | .returned scan => reads ⊆ scan.reads
  | .mismatch => True
  | .faulted _ => True

theorem Turn.Records.mono
    {reads more : List Nat}
    {turned : Turn}
    (fewer : reads ⊆ more)
    (records : turned.Records more) :
    turned.Records reads := by
  cases turned with
  | goesOn label scan =>
      exact List.Subset.trans fewer records
  | unimplemented byte scan =>
      exact List.Subset.trans fewer records
  | returned scan =>
      exact List.Subset.trans fewer records
  | mismatch =>
      trivial
  | faulted scan =>
      trivial

theorem break_records
    {reads : List Nat}
    (same : scan.reads = reads) :
    scan.break.Records reads :=
  same ▸ List.Subset.refl scan.reads

theorem convert_records
    (conversion : Conversion) :
    (convert conversion scan).Records scan.reads := by
  unfold convert
  split
  · trivial
  · split
    · trivial
    · exact break_records rfl

theorem longLongCase_records :
    (longLongCase leftOver format scan).Records scan.reads := by
  apply Turn.Records.mono (List.subset_cons_self scan.forward.offset _)
  simp only [longLongCase]
  split
  · exact break_records rfl
  · split
    · exact convert_records _
    · exact break_records rfl

theorem longCase_records :
    (longCase leftOver format scan).Records scan.reads := by
  apply Turn.Records.mono (List.subset_cons_self scan.forward.offset _)
  simp only [longCase]
  split
  · exact break_records rfl
  · split
    · exact longLongCase_records
    · split
      · exact convert_records _
      · exact break_records rfl

/-- A turn reads the next byte and forgets no read. -/
theorem turn_records
    (leftOver : List UInt8)
    (format : Memory)
    (label : Label)
    (scan : Scan) :
    (turn leftOver format label scan).Records
      (scan.next label :: scan.reads) := by
  cases label with
  | loop =>
      simp only [turn]
      split
      · exact List.Subset.refl _
      · split
        · exact List.Subset.refl _
        · exact break_records rfl
  | format =>
      simp only [turn]
      split
      · exact break_records rfl
      · split
        · exact List.Subset.refl _
        · split
          · exact longCase_records
          · split
            · exact convert_records _
            · exact List.Subset.refl _

/-- A run that returns has read the next byte and forgets no read. -/
theorem runFrom_records
    {fuel : Nat}
    {final : Scan}
    (run : runFrom leftOver fuel format label scan = .returned final) :
    scan.next label :: scan.reads ⊆ final.reads := by
  induction fuel generalizing label scan with
  | zero =>
      cases run
  | succ fuel inductionHypothesis =>
      have records := turn_records leftOver format label scan
      rw [runFrom] at run
      generalize turn leftOver format label scan = turned at records run
      cases turned with
      | goesOn next after =>
          have later := (List.cons_subset.mp (inductionHypothesis run)).2
          exact List.Subset.trans records later
      | unimplemented byte after =>
          simp only at run
          split at run
          · have later := (List.cons_subset.mp (inductionHypothesis run)).2
            exact List.Subset.trans records later
          · cases run
          · cases run
          · cases run
      | returned last =>
          cases run
          exact records
      | mismatch =>
          cases run
      | faulted last =>
          cases run

/-- A format that fails and returns is read beyond its terminator. -/
theorem runFrom_overruns
    {fuel : Nat}
    {final : Scan}
    (cut : Fails label.place rest scan.arguments)
    (ahead : Ahead format last label.place (scan.next label) scan rest)
    (run : runFrom leftOver fuel format label scan = .returned final) :
    last + 1 ∈ final.reads := by
  induction fuel generalizing label scan rest with
  | zero =>
      cases run
  | succ fuel inductionHypothesis =>
      have progress := turn_progress leftOver ahead
      rw [runFrom] at run
      generalize turn leftOver format label scan = turned at progress run
      cases progress with
      | returns inside complete =>
          exact absurd cut complete
      | moves here same closer =>
          exact inductionHypothesis (same.mpr cut) here run
      | @reports byte scan rest here same closer =>
          simp only at run
          split at run
          · rename_i nested nestedRun
            have loopAhead :
                Ahead format last Label.loop.place
                  ((scan.print nested.output).backward.forward.next .loop)
                  (scan.print nested.output).backward.forward rest :=
              here nested.output
            have loopCut :
                Fails Label.loop.place rest
                  (scan.print nested.output).backward.forward.arguments :=
              same.mpr cut
            exact inductionHypothesis loopCut loopAhead run
          · cases run
          · cases run
          · cases run
      | @overruns scan beyond stepsOver =>
          have read := (List.cons_subset.mp (runFrom_records run)).1
          rw [Scan.next, beyond] at read
          exact read
      | faults inexact =>
          cases run

end Runs

section Formats

variable
    {leftOver : List UInt8}
    {format : Memory}
    {bytes : List UInt8}
    {arguments : List Argument}

/-- At the start the whole format is ahead. -/
theorem ahead_start
    (spells : Spells format 0 bytes)
    (fit : Fit bytes arguments) :
    Ahead format bytes.length Label.loop.place
      ((Scan.start arguments).next .loop) (Scan.start arguments) bytes :=
  ⟨spells, Nat.zero_add _, List.forall_mem_nil _, fit⟩

theorem stopsAtTerminator_of_not_fails
    (spells : Spells format 0 bytes)
    (fit : Fit bytes arguments)
    (whole : ¬ Fails .text bytes arguments) :
    StopsAtTerminator leftOver format bytes.length arguments := by
  have loopWhole :
      ¬ Fails Label.loop.place bytes (Scan.start arguments).arguments :=
    whole
  obtain ⟨final, run, inside⟩ :=
    runFrom_returns loopWhole (ahead_start spells fit) (Nat.le_refl _)
  exact ⟨_, final, run, inside⟩

theorem not_stopsAtTerminator_of_fails
    (spells : Spells format 0 bytes)
    (fit : Fit bytes arguments)
    (fails : Fails .text bytes arguments) :
    ¬ StopsAtTerminator leftOver format bytes.length arguments := by
  intro ⟨fuel, final, run, inside⟩
  have loopFails :
      Fails Label.loop.place bytes (Scan.start arguments).arguments :=
    fails
  have beyond :=
    inside _ (runFrom_overruns loopFails (ahead_start spells fit) run)
  omega

end Formats

/--
The interpreter stops at the terminator exactly if the format does not end
right after the `l` or the `ll` of a conversion, and no signed 64-bit argument
that it takes is the smallest number.
-/
theorem stopsAtTerminator_iff
    (leftOver : List UInt8)
    (format : Memory)
    (bytes : List UInt8)
    (arguments : List Argument)
    (spells : Spells format 0 bytes)
    (fit : Fit bytes arguments) :
    StopsAtTerminator leftOver format bytes.length arguments ↔
      ¬ (Place.text.afterAll bytes).IsLong ∧
        ∀ argument ∈ Place.text.taken bytes arguments, argument.Exact := by
  have whole :
      ¬ Fails .text bytes arguments ↔
        ¬ (Place.text.afterAll bytes).IsLong ∧
          ∀ argument ∈ Place.text.taken bytes arguments, argument.Exact := by
    simp only [Fails, not_or, not_exists, not_and, not_not]
  rw [← whole]
  constructor
  · intro stops fails
    exact not_stopsAtTerminator_of_fails spells fit fails stops
  · exact stopsAtTerminator_of_not_fails spells fit

/-- A format with an unknown conversion that ends after a flag. -/
theorem stopsAtTerminator_flagAtEnd :
    StopsAtTerminator [] (spelled (chars "%lx %q %0")) 9
      [⟨.unsignedLong, (42 : UInt64)⟩] :=
  (stopsAtTerminator_iff [] _ (chars "%lx %q %0") _
    (spells_spelled [] _ (by decide)) (by decide)).mpr (by decide)

/--
A format that ends after `%l`: the byte after the terminator is read.  On the
smallest number `%lld` does not return.
-/
theorem not_stopsAtTerminator_longAtEnd :
    (Spells (spelled (chars "%l")) 0 (chars "%l") ∧
      Fit (chars "%l") [] ∧
      ¬ StopsAtTerminator [] (spelled (chars "%l")) 2 []) ∧
    Fit (chars "%lld") [⟨.longLong, Int64.minValue⟩] ∧
      ¬ StopsAtTerminator [] (spelled (chars "%lld")) 4
        [⟨.longLong, Int64.minValue⟩] := by
  have spells : Spells (spelled (chars "%l")) 0 (chars "%l") :=
    spells_spelled [] _ (by decide)
  have fit : Fit (chars "%l") [] := by decide
  have spellsLong : Spells (spelled (chars "%lld")) 0 (chars "%lld") :=
    spells_spelled [] _ (by decide)
  have fitLong : Fit (chars "%lld") [⟨.longLong, Int64.minValue⟩] := by
    decide
  refine
    ⟨⟨spells, fit, not_stopsAtTerminator_of_fails spells fit ?_⟩, fitLong,
      not_stopsAtTerminator_of_fails spellsLong fitLong ?_⟩
  · exact .inl (by decide)
  · exact .inr (by decide)

end Relics.Print
