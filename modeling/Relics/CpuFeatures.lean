import Relics.BitFields
import Relics.CountedLoop
import Relics.PrintPieces
import Relics.SelectedWords

namespace Relics.Cpu

/-!
# The report of the CPU's features

`remaining_features` asks CPUID for its feature words and goes through two
tables of names, one for `ecx` and one for `edx`.  Both loops test `ecx`, so
the names of the second table are those of the features in `edx` only where
the two words have the same of its bits.
-/

open BitFields CountedLoop Print SelectedWords

/-- The character behind every name. -/
def space : UInt8 := 0x20

/-- `struct cpuid_struct` -/
structure CpuidStruct where
  feature : UInt32
  featureString : List UInt8

/--
An array of 31 features: each is one bit or none, and its names are distinct
strings without a space.
-/
structure FeatureTable where
  entries : List CpuidStruct
  size : entries.length = 31
  flags :
    ∀ entry ∈ entries,
      ∃ bit ≤ 32, entry.feature.toBitVec = BitVec.twoPow 32 bit
  strings :
    ∀ entry ∈ entries,
      0 ∉ entry.featureString ∧ space ∉ entry.featureString
  distinct : (entries.map CpuidStruct.featureString).Nodup

section Source

/-- A `CPUID_FEAT` constant, given by its bit, with its string -/
def cpuidFeat (bit : UInt32) (string : String) : CpuidStruct where
  feature := 1 <<< bit
  featureString := chars string

/-- The entries of `cpuidstruct_ecx` -/
def ecxEntries : List CpuidStruct :=
  [cpuidFeat 0 "sse3",
    cpuidFeat 1 "pclmul",
    cpuidFeat 2 "dtes64",
    cpuidFeat 3 "monitor",
    cpuidFeat 4 "ds_cpl",
    cpuidFeat 5 "vmx",
    cpuidFeat 6 "smx",
    cpuidFeat 7 "est",
    cpuidFeat 8 "tm2",
    cpuidFeat 9 "ssse3",
    cpuidFeat 10 "cid",
    cpuidFeat 11 "sdbg",
    cpuidFeat 12 "fma",
    cpuidFeat 13 "cx16",
    cpuidFeat 14 "xtpr",
    cpuidFeat 15 "pdcm",
    cpuidFeat 17 "pcid",
    cpuidFeat 18 "dca",
    cpuidFeat 19 "sse4_1",
    cpuidFeat 20 "sse4_2",
    cpuidFeat 21 "x2apic",
    cpuidFeat 22 "movbe",
    cpuidFeat 23 "popcnt",
    cpuidFeat 24 "tsc",
    cpuidFeat 25 "aes",
    cpuidFeat 26 "xsave",
    cpuidFeat 27 "osxsave",
    cpuidFeat 28 "avx",
    cpuidFeat 29 "f16c",
    cpuidFeat 30 "rdrand",
    cpuidFeat 31 "hypervisor"]

/--
The entries of `cpuidstruct_edx`, whose last one is not initialised and so
zero.
-/
def edxEntries : List CpuidStruct :=
  [cpuidFeat 0 "fpu",
    cpuidFeat 1 "vme",
    cpuidFeat 2 "de",
    cpuidFeat 3 "pse",
    cpuidFeat 4 "tsc",
    cpuidFeat 5 "msr",
    cpuidFeat 6 "pae",
    cpuidFeat 7 "mce",
    cpuidFeat 8 "cx8",
    cpuidFeat 9 "apic",
    cpuidFeat 11 "sep",
    cpuidFeat 12 "mtrr",
    cpuidFeat 13 "pge",
    cpuidFeat 14 "mca",
    cpuidFeat 15 "cmov",
    cpuidFeat 16 "pat",
    cpuidFeat 17 "pse36",
    cpuidFeat 18 "psn",
    cpuidFeat 19 "clflush",
    cpuidFeat 21 "ds",
    cpuidFeat 22 "acpi",
    cpuidFeat 23 "mmx",
    cpuidFeat 24 "fxsr",
    cpuidFeat 25 "sse",
    cpuidFeat 26 "sse2",
    cpuidFeat 27 "ss",
    cpuidFeat 28 "htt",
    cpuidFeat 29 "tm",
    cpuidFeat 30 "ia64",
    cpuidFeat 31 "pbe",
    ⟨0, []⟩]

/-- `cpuidstruct_ecx` -/
def cpuidstructEcx : FeatureTable where
  entries := ecxEntries
  size := rfl
  flags := List.forall_iff_forall_mem.mp (by decide)
  strings := List.forall_iff_forall_mem.mp (by decide)
  distinct := by decide

/-- `cpuidstruct_edx` -/
def cpuidstructEdx : FeatureTable where
  entries := edxEntries
  size := rfl
  flags := List.forall_iff_forall_mem.mp (by decide)
  strings := List.forall_iff_forall_mem.mp (by decide)
  distinct := by decide

/-- The registers after `cpuid_call`. -/
structure Registers where
  a : UInt32
  b : UInt32
  c : UInt32
  d : UInt32

/-- What a loop has printed, and the indices at which it read its table. -/
structure Report where
  printed : List UInt8
  reads : List Nat

/-- The body of both loops -/
def printFeature
    (table : FeatureTable)
    (word : UInt32)
    (i : Nat)
    (report : Report) :
    Report :=
  let entry := table.entries.getD i ⟨0, []⟩
  let report := { report with reads := report.reads ++ [i] }
  if word &&& entry.feature ≠ 0 then
    { printed :=
        report.printed ++ (printString entry.featureString ++ chars " ")
      reads := report.reads ++ [i] }
  else
    report

/-- A loop over a table with a feature word -/
def printFeatures (table : FeatureTable) (word : UInt32) : Report :=
  loop (printFeature table word) ⟨[], []⟩ 31

/-- What `remaining_features` prints and the indices it reads in each table. -/
structure Output where
  printed : List UInt8
  ecxReads : List Nat
  edxReads : List Nat

/-- `remaining_features`: both of its loops test `c` -/
def remainingFeatures (time : List UInt8) (registers : Registers) : Output :=
  let first := printFeatures cpuidstructEcx registers.c
  let second := printFeatures cpuidstructEdx registers.c
  { printed :=
      logPrintk time (chars "Cpu features: ") ++ first.printed ++
        second.printed ++ chars "\n"
    ecxReads := first.reads
    edxReads := second.reads }

end Source

section Messages

/-! What the model prints is what `printk` prints for the formats of the source. -/

variable (leftOver : List UInt8)

/-- The text of the log line. -/
theorem prints_header :
    Prints leftOver (chars "Cpu features: ") [] (chars "Cpu features: ") [] :=
  prints_literal leftOver ⟨chars "Cpu features: ", by decide, by decide⟩

/-- The name of a feature. -/
theorem prints_name (name : List UInt8) :
    Prints leftOver (chars "%s ") [⟨.string, name⟩]
      (printString name ++ chars " ") [] :=
  prints_string leftOver ⟨[], by decide, by decide⟩
    ⟨chars " ", by decide, by decide⟩ name

/-- The end of the line. -/
theorem prints_newline :
    Prints leftOver (chars "\n") [] (chars "\n") [] :=
  prints_literal leftOver ⟨chars "\n", by decide, by decide⟩

end Messages

section Loops

variable {table : FeatureTable}
variable {word : UInt32}

/-- An entry has its bit in a word. -/
def CpuidStruct.isSet (word : UInt32) (entry : CpuidStruct) : Bool :=
  word &&& entry.feature ≠ 0

/-- The names in a table whose bits are set in a word, in its order. -/
def names (table : FeatureTable) (word : UInt32) : List (List UInt8) :=
  selected CpuidStruct.featureString (CpuidStruct.isSet word) table.entries

/-- A loop writes one entry more of its table. -/
theorem printed_printFeature
    {i : Nat}
    (inside : i < table.entries.length)
    (report : Report) :
    (printFeature table word i report).printed =
      report.printed ++
        separated space
          (if table.entries[i].isSet word then
            [table.entries[i].featureString]
          else
            []) := by
  have name :
      printString table.entries[i].featureString =
        table.entries[i].featureString :=
    printString_of_notMem (table.strings _ (List.getElem_mem inside)).1
  have entry : table.entries.getD i ⟨0, []⟩ = table.entries[i] := by
    rw [List.getD_eq_getElem?_getD, List.getElem?_eq_getElem inside,
      Option.getD_some]
  rw [printFeature, entry]
  by_cases isSet : word &&& table.entries[i].feature ≠ 0
  · have selects : table.entries[i].isSet word = true :=
      decide_eq_true isSet
    simp only [if_pos isSet, selects, ↓reduceIte, name,
      separated_singleton]
    rfl
  · have passesOver : table.entries[i].isSet word = false :=
      decide_eq_false isSet
    simp only [if_neg isSet, passesOver, Bool.false_eq_true, ↓reduceIte]
    exact (List.append_nil _).symm

/-- A turn of a loop reads its table at the counter only. -/
theorem reads_printFeature
    {i index : Nat}
    {report : Report}
    (isRead : index ∈ (printFeature table word i report).reads) :
    index ∈ report.reads ∨ index = i := by
  rw [printFeature] at isRead
  split at isRead
  · simp only [List.mem_append, List.mem_singleton] at isRead
    rcases isRead with (earlier | tested) | printed
    · exact Or.inl earlier
    · exact Or.inr tested
    · exact Or.inr printed
  · simp only [List.mem_append, List.mem_singleton] at isRead
    exact isRead

/-- A loop writes the names of the features in its word. -/
theorem printed_printFeatures
    (table : FeatureTable)
    (word : UInt32) :
    (printFeatures table word).printed =
      separated space (names table word) := by
  have written :
      (printFeatures table word).printed =
        separated space
          (selected CpuidStruct.featureString (CpuidStruct.isSet word)
            (table.entries.take 31)) := by
    apply loop_invariant fun index (report : Report) =>
      report.printed =
        separated space
          (selected CpuidStruct.featureString (CpuidStruct.isSet word)
            (table.entries.take index))
    · rfl
    · intro index report below soFar
      have inside : index < table.entries.length := by
        rw [table.size]
        exact below
      rw [printed_printFeature inside, soFar, ← separated_append,
        ← selected_concat, List.take_append_getElem inside]
  rw [written, ← table.size, List.take_length, names]

/-- A loop reads inside its table. -/
theorem reads_printFeatures
    (table : FeatureTable)
    (word : UInt32) :
    ∀ index ∈ (printFeatures table word).reads,
      index < table.entries.length := by
  rw [table.size]
  apply loop_invariant fun counter (report : Report) =>
    ∀ index ∈ report.reads, index < counter
  · intro index isRead
    exact absurd isRead List.not_mem_nil
  · intro counter report _ soFar index isRead
    rcases reads_printFeature isRead with earlier | rfl
    · exact Nat.lt_succ_of_lt (soFar index earlier)
    · exact Nat.lt_succ_self index

/-- The names in a table have no space. -/
theorem space_notMem_names :
    ∀ name ∈ names table word, space ∉ name :=
  forall_mem_selected fun entry inTable => (table.strings entry inTable).2

end Loops

section Agreement

/-- The bits that a table has a name for. -/
def FeatureTable.bits (table : FeatureTable) : UInt32 :=
  UInt32.ofBitVec
    ((table.entries.map fun entry => entry.feature.toBitVec).foldr
      (· ||| ·) (BitVec.ofNat 32 0))

/-- The bits with a name in the second table are all but 10 and 20. -/
example : cpuidstructEdx.bits = 0xFFEFFBFF := by
  decide

variable {table : FeatureTable}
variable {first second : UInt32}

/-- Two words have the same of the bits that a table names. -/
theorem and_bits_eq_iff :
    first &&& table.bits = second &&& table.bits ↔
      ∀ entry ∈ table.entries,
        first &&& entry.feature = second &&& entry.feature := by
  simp only [← UInt32.toBitVec_inj, UInt32.toBitVec_and]
  rw [FeatureTable.bits, and_union_eq_iff, List.forall_mem_map]

/-- An entry is set in both of two words or in none. -/
theorem isSet_eq_iff
    {entry : CpuidStruct}
    (inTable : entry ∈ table.entries) :
    entry.isSet first = entry.isSet second ↔
      first &&& entry.feature = second &&& entry.feature := by
  obtain ⟨bit, -, isFlag⟩ := table.flags entry inTable
  have flag := and_flag_eq_iff first.toBitVec second.toBitVec bit
  rw [Bool.eq_iff_iff, CpuidStruct.isSet, CpuidStruct.isSet,
    decide_eq_true_iff, decide_eq_true_iff]
  simp only [Ne, ← UInt32.toBitVec_inj, UInt32.toBitVec_and, isFlag]
  exact flag.symm

/-- Two words have the same names in a table if they agree in its bits. -/
theorem names_eq_iff :
    names table first = names table second ↔
      first &&& table.bits = second &&& table.bits := by
  rw [names, names, selected_inj table.distinct, and_bits_eq_iff]
  exact forall₂_congr fun entry inTable => isSet_eq_iff inTable

end Agreement

section Report

/--
`remaining_features` prints the names of the features in `ecx` and then those
of the features in `edx`, in the order of the tables, and reads inside these.
-/
structure ReportsFeatures
    (time : List UInt8)
    (registers : Registers) :
    Prop where
  printed :
    (remainingFeatures time registers).printed =
      logPrintk time (chars "Cpu features: ") ++
        separated space
          (names cpuidstructEcx registers.c ++
            names cpuidstructEdx registers.d) ++
        chars "\n"
  ecxInside :
    ∀ index ∈ (remainingFeatures time registers).ecxReads,
      index < cpuidstructEcx.entries.length
  edxInside :
    ∀ index ∈ (remainingFeatures time registers).edxReads,
      index < cpuidstructEdx.entries.length

variable (time : List UInt8)
variable (registers : Registers)

/-- What is printed are the names of two words, both of them `ecx`. -/
theorem printed_remainingFeatures :
    (remainingFeatures time registers).printed =
      logPrintk time (chars "Cpu features: ") ++
        separated space
          (names cpuidstructEcx registers.c ++
            names cpuidstructEdx registers.c) ++
        chars "\n" := by
  rw [remainingFeatures, printed_printFeatures, printed_printFeatures,
    separated_append, ← List.append_assoc]

/-- A right report has the names in `ecx` and in `edx` the same. -/
theorem names_of_reportsFeatures
    {time : List UInt8}
    {registers : Registers}
    (reports : ReportsFeatures time registers) :
    names cpuidstructEdx registers.c = names cpuidstructEdx registers.d := by
  have printed := reports.printed
  rw [printed_remainingFeatures] at printed
  have sameText :=
    List.append_cancel_left (List.append_cancel_right printed)
  rw [separated_append, separated_append] at sameText
  exact
    (separated_inj space_notMem_names space_notMem_names).mp
      (List.append_cancel_left sameText)

/--
The report is right if and only if `ecx` and `edx` have the same of the bits
that the second table has a name for.
-/
theorem remainingFeatures_reportsFeatures_iff :
    ReportsFeatures time registers ↔
      registers.c &&& cpuidstructEdx.bits =
        registers.d &&& cpuidstructEdx.bits := by
  rw [← names_eq_iff]
  constructor
  · exact names_of_reportsFeatures
  · intro same
    constructor
    · rw [printed_remainingFeatures, same]
    · exact reads_printFeatures cpuidstructEcx registers.c
    · exact reads_printFeatures cpuidstructEdx registers.c

/-- A processor with an FPU only is reported as one without features. -/
theorem remainingFeatures_fpu_counterexample :
    ¬ ∀ time registers, ReportsFeatures time registers := by
  intro reports
  have same := names_of_reportsFeatures (reports [] ⟨0, 0, 0, 1⟩)
  rw [names_eq_iff] at same
  exact absurd same (by decide)

end Report

end Relics.Cpu
