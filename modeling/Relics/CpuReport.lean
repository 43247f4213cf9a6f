import Relics.CpuFeatures
import Relics.LogReading

namespace Relics.Cpu

/-!
# The report of the processor

`set_cpu_vendor_name` logs what `cpuid` tells of the processor: the vendor,
the model with its family and stepping, and the features.  The text tells
just this, and `ecx` whole, because each of its bits has a name of its own in
one of the two tables.  The model lacks its extended part where the family
has one.
-/

open BitFields Print SelectedWords

section Source

/-- What the processor answers when it is asked -/
structure Processor where
  /-- the control and status words of the FPU are as after `fninit` -/
  fpu : Bool
  /-- the bit of `cpuid` in the flags can be changed -/
  idFlag : Bool
  cpuid : (id cnt : UInt32) → Registers

/-- `cpu_vendor` -/
structure CpuVendor where
  zero : UInt32
  one : UInt32
  two : UInt32

/-- `CPUID_FEAT_EDX_FXSR` and `CPUID_FEAT_EDX_SSE` -/
def cpuidFeatEdxFxsr : UInt32 := (1 : UInt32) <<< 24

def cpuidFeatEdxSse : UInt32 := (1 : UInt32) <<< 25

/-- `has_sse`, without the registers that it sets -/
def hasSse (processor : Processor) : Bool :=
  let registers := processor.cpuid 0x1 0
  registers.d &&& cpuidFeatEdxSse ≠ 0 ∧
    registers.d &&& cpuidFeatEdxFxsr ≠ 0

/-- The vendor that `cpuflags` leaves, which it asks for if it can -/
def vendorOf (processor : Processor) (cpuVendor : CpuVendor) : CpuVendor :=
  if processor.idFlag then
    let registers := processor.cpuid 0x0 0
    { zero := registers.b, one := registers.d, two := registers.c }
  else
    cpuVendor

/-- What `cpuflags` logs of the FPU -/
def fpuText (fpu : Bool) : List UInt8 :=
  if fpu then chars "FPU available\n"
  else chars "No FPU available; halting\n"

/-- What `has_sse` and `cpuflags` log of SSE -/
def sseText (sse : Bool) : List UInt8 :=
  if sse then chars "SSE available\n"
  else chars "Something went wrong with the SSE process\n"

/-- The bytes of a word, the lowest first, as `set_cpu_vendor_name` cuts it -/
def vendorBytes (word : UInt32) : List UInt8 :=
  let bitmask : UInt32 := 255
  [(word &&& bitmask).toUInt8,
    ((word &&& bitmask <<< 8) >>> 8).toUInt8,
    ((word &&& bitmask <<< 16) >>> 16).toUInt8,
    ((word &&& bitmask <<< 24) >>> 24).toUInt8]

/-- `cpu_vendor_name` -/
def cpuVendorName (cpuVendor : CpuVendor) : List UInt8 :=
  vendorBytes cpuVendor.zero ++ vendorBytes cpuVendor.one ++
    vendorBytes cpuVendor.two ++ [0]

/-- The numbers that `model_family_stepping` prints -/
structure Signature where
  model : UInt8
  family : UInt16
  stepping : UInt8
  deriving DecidableEq

/-- `model_family_stepping`, from what `cpuid` leaves in `eax` -/
def modelFamilyStepping (a : UInt32) : Signature :=
  let processorStepping := (a &&& 0xF).toUInt8
  let model := ((a >>> 4) &&& 0xF).toUInt8
  let family := ((a >>> 8) &&& 0xF).toUInt16
  let family :=
    if family = 0xF then family + ((a >>> 20) &&& 0xFF).toUInt16 else family
  let model :=
    if family = 0xF ∨ family = 0x6 then
      model + (((a >>> 16) &&& 0xFF) <<< 4).toUInt8
    else
      model
  { model := model
    family := family
    stepping := processorStepping }

/-- `"CPU Vendor: %s\n"` -/
def vendorLine (name : List UInt8) : Message where
  before := [.literal ⟨chars "CPU Vendor: ", by decide, by decide⟩]
  constant := by simp [Piece.arguments]
  fields := [⟨⟨false, .s, .newLine, Literal.newLine_ne_nil⟩, name⟩]

/-- `"CPU Model=%x Family=%x Stepping=%x\n"` -/
def modelLine (signature : Signature) : Message where
  before := [.literal ⟨chars "CPU Model=", by decide, by decide⟩]
  constant := by simp [Piece.arguments]
  fields :=
    [⟨⟨false, .x, ⟨chars " Family=", by decide, by decide⟩, by decide⟩,
        signature.model.toUInt32⟩,
      ⟨⟨false, .x, ⟨chars " Stepping=", by decide, by decide⟩, by decide⟩,
        signature.family.toUInt32⟩,
      ⟨⟨false, .x, .newLine, Literal.newLine_ne_nil⟩,
        signature.stepping.toUInt32⟩]

/--
What `set_cpu_vendor_name` prints, with what its calls of `log_printk` and
`printk` find; a `hlt` without an FPU lasts until the next interrupt only
-/
def setCpuVendorName
    (leftOver : Nat → List UInt8)
    (calls : Nat → LogCall)
    (processor : Processor)
    (cpuVendor : CpuVendor) :
    List UInt8 :=
  let name := cpuVendorName (vendorOf processor cpuVendor)
  let signature := modelFamilyStepping (processor.cpuid 0x1 0).a
  logPrintk (calls 0).time (fpuText processor.fpu) ++
    (logPrintk (calls 1).time (sseText (hasSse processor)) ++
      (logPrintk (calls 2).time ((vendorLine name).text (leftOver 2)) ++
        (logPrintk (calls 3).time ((modelLine signature).text (leftOver 3)) ++
          (remainingFeatures (calls 4).time (processor.cpuid 0x1 0)).printed)))

variable (leftOver : List UInt8)

/-- The lines are what `printk` prints for their formats. -/
theorem prints_vendorLine (name : List UInt8) :
    Prints leftOver (chars "CPU Vendor: %s\n") [⟨.string, name⟩]
      ((vendorLine name).text leftOver) [] := by
  refine prints_of_pieces (vendorLine name).pieces ?_ rfl ?_ rfl
  · simp only [textOf, Message.pieces, vendorLine, Field.pieces,
      List.flatMap_cons, List.flatMap_nil]
    rfl
  · simp [Argument.Exact, Argument.signed]

theorem prints_modelLine (signature : Signature) :
    Prints leftOver (chars "CPU Model=%x Family=%x Stepping=%x\n")
      [⟨.unsignedInt, signature.model.toUInt32⟩,
        ⟨.unsignedInt, signature.family.toUInt32⟩,
        ⟨.unsignedInt, signature.stepping.toUInt32⟩]
      ((modelLine signature).text leftOver) [] := by
  refine prints_of_pieces (modelLine signature).pieces ?_ rfl ?_ rfl
  · simp only [textOf, Message.pieces, modelLine, Field.pieces,
      List.flatMap_cons, List.flatMap_nil]
    rfl
  · simp [Argument.Exact, Argument.signed]

end Source

section Lines

variable {leftOver leftOver' : List UInt8}
variable {rest later : List UInt8}

/-- Texts with different first letters are apart whatever is behind them. -/
theorem append_inj_of_take
    {α : Type}
    {text : α → List UInt8}
    (letters : Nat)
    (long : ∀ chosen, letters ≤ (text chosen).length)
    (apart :
      ∀ chosen chosen',
        (text chosen).take letters = (text chosen').take letters →
          chosen = chosen')
    {chosen chosen' : α} :
    text chosen ++ rest = text chosen' ++ later ↔
      chosen = chosen' ∧ rest = later := by
  constructor
  · intro same
    have begins := congrArg (List.take letters) same
    rw [List.take_append_of_le_length (long chosen),
      List.take_append_of_le_length (long chosen')] at begins
    obtain rfl := apart chosen chosen' begins
    exact ⟨rfl, List.append_cancel_left same⟩
  · rintro ⟨rfl, rfl⟩
    rfl

/-- `FPU` and `No `, `SSE` and `Som` -/
theorem fpuText_append_inj {fpu fpu' : Bool} :
    fpuText fpu ++ rest = fpuText fpu' ++ later ↔
      fpu = fpu' ∧ rest = later :=
  append_inj_of_take 3 (by decide) (by decide)

theorem sseText_append_inj {sse sse' : Bool} :
    sseText sse ++ rest = sseText sse' ++ later ↔
      sse = sse' ∧ rest = later :=
  append_inj_of_take 3 (by decide) (by decide)

/-- A vendor line is read up to its end. -/
theorem clean_vendorLine
    {name : List UInt8}
    (oneLine : 0x0A ∉ printString name) :
    (vendorLine name).Clean leftOver := by
  simp only [Message.Clean, vendorLine, List.forall_mem_cons]
  exact
    ⟨Field.clean_string oneLine, fun _ none => absurd none List.not_mem_nil⟩

theorem clean_modelLine
    (size : leftOver.length = 64)
    (signature : Signature) :
    (modelLine signature).Clean leftOver := by
  simp only [Message.Clean, modelLine, List.forall_mem_cons]
  refine ⟨?_, ?_, ?_, fun _ none => absurd none List.not_mem_nil⟩
  · exact Field.clean_of_number size rfl (by decide) (by decide)
  · exact Field.clean_of_number size rfl (by decide) (by decide)
  · exact Field.clean_of_number size rfl (by decide) (by decide)

theorem shown_vendorLine_iff {name name' : List UInt8} :
    (vendorLine name).shown = (vendorLine name').shown ↔
      printString name = printString name' := by
  simp [Message.shown, vendorLine, Field.shown, Specifier.shown]

theorem shown_modelLine_iff {signature signature' : Signature} :
    (modelLine signature).shown = (modelLine signature').shown ↔
      signature = signature' := by
  obtain ⟨model, family, stepping⟩ := signature
  obtain ⟨model', family', stepping'⟩ := signature'
  simp [Message.shown, modelLine, Field.shown, Specifier.shown,
    ← UInt64.toNat_inj, ← UInt8.toNat_inj, ← UInt16.toNat_inj]

/-- A vendor line with text behind it tells the printed name. -/
theorem vendorLine_append_inj
    (size : leftOver.length = 64)
    (size' : leftOver'.length = 64)
    {name name' : List UInt8}
    (oneLine : 0x0A ∉ printString name)
    (oneLine' : 0x0A ∉ printString name') :
    (vendorLine name).text leftOver ++ rest =
        (vendorLine name').text leftOver' ++ later ↔
      printString name = printString name' ∧ rest = later := by
  have sameFormat : (vendorLine name).SameFormat (vendorLine name') :=
    ⟨rfl, rfl⟩
  rw [Message.text_append_inj size size' sameFormat
    (clean_vendorLine oneLine) (clean_vendorLine oneLine'),
    shown_vendorLine_iff]

/-- A model line with text behind it tells its numbers. -/
theorem modelLine_append_inj
    (size : leftOver.length = 64)
    (size' : leftOver'.length = 64)
    {signature signature' : Signature} :
    (modelLine signature).text leftOver ++ rest =
        (modelLine signature').text leftOver' ++ later ↔
      signature = signature' ∧ rest = later := by
  have sameFormat : (modelLine signature).SameFormat (modelLine signature') :=
    ⟨rfl, rfl⟩
  rw [Message.text_append_inj size size' sameFormat
    (clean_modelLine size signature) (clean_modelLine size' signature'),
    shown_modelLine_iff]

end Lines

section Features

variable {first second : FeatureTable}
variable {word other : UInt32}

/-- The entries of a table whose name is not in another one -/
def tellingEntries (table another : FeatureTable) : List CpuidStruct :=
  table.entries.filter fun entry =>
    entry.featureString ∉ another.entries.map CpuidStruct.featureString

/-- A name that only one of the tables has tells its bit. -/
theorem mem_names_append
    {entry : CpuidStruct}
    (telling : entry ∈ tellingEntries first second) :
    entry.featureString ∈ names first word ++ names second word ↔
      entry.isSet word = true := by
  obtain ⟨inTable, onlyHere⟩ := List.mem_filter.mp telling
  have notThere : entry.featureString ∉ names second word := by
    intro member
    obtain ⟨another, inFilter, sameName⟩ := List.mem_map.mp member
    apply of_decide_eq_true onlyHere
    rw [← sameName]
    exact List.mem_map_of_mem (List.mem_of_mem_filter inFilter)
  rw [List.mem_append, or_iff_left notThere]
  exact mem_selected first.distinct inTable

/-- The same names mean the same telling bits. -/
theorem and_feature_eq_of_names
    (same :
      ∀ name,
        name ∈ names first word ++ names second word ↔
          name ∈ names first other ++ names second other) :
    ∀ entry ∈ tellingEntries first second,
      word &&& entry.feature = other &&& entry.feature := by
  intro entry telling
  rw [← isSet_eq_iff (List.mem_of_mem_filter telling), Bool.eq_iff_iff,
    ← mem_names_append telling, ← mem_names_append telling]
  exact same entry.featureString

/-- Every bit has a name that only one of the two tables has. -/
theorem foldr_tellingEntries :
    ((tellingEntries cpuidstructEcx cpuidstructEdx ++
          tellingEntries cpuidstructEdx cpuidstructEcx).map
        fun entry => entry.feature.toBitVec).foldr
        (· ||| ·) (BitVec.ofNat 32 0) =
      BitVec.allOnes 32 := by
  decide

/-- The names of both tables tell the word that they are selected by. -/
theorem names_append_inj :
    names cpuidstructEcx word ++ names cpuidstructEdx word =
        names cpuidstructEcx other ++ names cpuidstructEdx other ↔
      word = other := by
  constructor
  · intro same
    have masked :
        word.toBitVec &&& BitVec.allOnes 32 =
          other.toBitVec &&& BitVec.allOnes 32 := by
      rw [← foldr_tellingEntries, and_union_eq_iff, List.forall_mem_map]
      intro entry telling
      rw [← UInt32.toBitVec_and, ← UInt32.toBitVec_and, UInt32.toBitVec_inj]
      rcases List.mem_append.mp telling with inEcx | inEdx
      · exact and_feature_eq_of_names (fun name => by rw [same]) entry inEcx
      · refine and_feature_eq_of_names (fun name => ?_) entry inEdx
        rw [List.mem_append, or_comm, ← List.mem_append, same,
          List.mem_append, or_comm, ← List.mem_append]
    rw [BitVec.and_allOnes, BitVec.and_allOnes] at masked
    exact UInt32.toBitVec_inj.mp masked
  · rintro rfl
    rfl

/-- No name that is selected has a space in it. -/
theorem space_notMem_names_append :
    ∀ name ∈ names cpuidstructEcx word ++ names cpuidstructEdx word,
      space ∉ name := by
  intro name member
  rcases List.mem_append.mp member with inEcx | inEdx
  · exact space_notMem_names name inEcx
  · exact space_notMem_names name inEdx

/-- The line of the features tells its time and `ecx`. -/
theorem remainingFeatures_inj
    {call call' : LogCall}
    {registers registers' : Registers} :
    (remainingFeatures call.time registers).printed =
        (remainingFeatures call'.time registers').printed ↔
      call.time = call'.time ∧ registers.c = registers'.c := by
  rw [printed_remainingFeatures, printed_remainingFeatures, List.append_assoc,
    List.append_assoc, logPrintk_append_inj, List.append_cancel_left_eq,
    List.append_cancel_right_eq,
    separated_inj space_notMem_names_append space_notMem_names_append,
    names_append_inj]

end Features

section Report

variable {leftOver leftOver' : Nat → List UInt8}
variable {calls calls' : Nat → LogCall}
variable {processor processor' : Processor}
variable {cpuVendor cpuVendor' : CpuVendor}

/-- What the lines of the report tell, apart from their times. -/
structure SameProcessor
    (processor processor' : Processor)
    (cpuVendor cpuVendor' : CpuVendor) :
    Prop where
  fpu : processor.fpu = processor'.fpu
  sse : hasSse processor = hasSse processor'
  vendor :
    printString (cpuVendorName (vendorOf processor cpuVendor)) =
      printString (cpuVendorName (vendorOf processor' cpuVendor'))
  signature :
    modelFamilyStepping (processor.cpuid 0x1 0).a =
      modelFamilyStepping (processor'.cpuid 0x1 0).a
  ecx : (processor.cpuid 0x1 0).c = (processor'.cpuid 0x1 0).c

/--
Two reports are the same text exactly if their times are the same and so is
all that they are made for: the FPU and SSE, the vendor, model, family and
stepping, and every bit of `ecx`.
-/
theorem setCpuVendorName_inj
    (leftOver leftOver' : Nat → List UInt8)
    (calls calls' : Nat → LogCall)
    (processor processor' : Processor)
    (cpuVendor cpuVendor' : CpuVendor)
    (size : ∀ call, (leftOver call).length = 64)
    (size' : ∀ call, (leftOver' call).length = 64)
    (oneLine :
      0x0A ∉ printString (cpuVendorName (vendorOf processor cpuVendor)))
    (oneLine' :
      0x0A ∉ printString (cpuVendorName (vendorOf processor' cpuVendor'))) :
    setCpuVendorName leftOver calls processor cpuVendor =
        setCpuVendorName leftOver' calls' processor' cpuVendor' ↔
      (∀ call < 5, (calls call).time = (calls' call).time) ∧
        SameProcessor processor processor' cpuVendor cpuVendor' := by
  rw [setCpuVendorName, setCpuVendorName, logPrintk_append_inj,
    fpuText_append_inj, logPrintk_append_inj, sseText_append_inj,
    logPrintk_append_inj,
    vendorLine_append_inj (size 2) (size' 2) oneLine oneLine',
    logPrintk_append_inj, modelLine_append_inj (size 3) (size' 3),
    remainingFeatures_inj]
  constructor
  · rintro ⟨time0, fpu, time1, sse, time2, vendor, time3, signature, time4, ecx⟩
    refine ⟨?_, ⟨fpu, sse, vendor, signature, ecx⟩⟩
    intro call inside
    match call with
    | 0 => exact time0
    | 1 => exact time1
    | 2 => exact time2
    | 3 => exact time3
    | 4 => exact time4
  · rintro ⟨times, ⟨fpu, sse, vendor, signature, ecx⟩⟩
    exact
      ⟨times 0 (by decide), fpu, times 1 (by decide), sse,
        times 2 (by decide), vendor, times 3 (by decide), signature,
        times 4 (by decide), ecx⟩

/-- A processor with a vendor, of family 6 with all its features -/
def processorOf (vendor : CpuVendor) : Processor where
  fpu := true
  idFlag := true
  cpuid id _ :=
    if id = 0 then
      ⟨1, vendor.zero, vendor.two, vendor.one⟩
    else
      ⟨0x106A5, 0, 0xFFFFFFFF, 0xFFFFFFFF⟩

/-- The reports of two vendors' processors differ. -/
theorem setCpuVendorName_inj_vendors :
    setCpuVendorName (fun _ => List.replicate 64 0)
        (fun _ => ⟨false, 0, List.replicate 64 0, by decide⟩)
        (processorOf ⟨0x756e6547, 0x49656e69, 0x6c65746e⟩) ⟨0, 0, 0⟩ ≠
      setCpuVendorName (fun _ => List.replicate 64 0)
        (fun _ => ⟨false, 0, List.replicate 64 0, by decide⟩)
        (processorOf ⟨0x68747541, 0x69746e65, 0x444d4163⟩) ⟨0, 0, 0⟩ := by
  intro same
  obtain ⟨-, told⟩ :=
    (setCpuVendorName_inj (fun _ => List.replicate 64 0)
      (fun _ => List.replicate 64 0)
      (fun _ => ⟨false, 0, List.replicate 64 0, by decide⟩)
      (fun _ => ⟨false, 0, List.replicate 64 0, by decide⟩)
      (processorOf ⟨0x756e6547, 0x49656e69, 0x6c65746e⟩)
      (processorOf ⟨0x68747541, 0x69746e65, 0x444d4163⟩)
      ⟨0, 0, 0⟩ ⟨0, 0, 0⟩ (fun _ => by decide) (fun _ => by decide)
      (by decide) (by decide)).mp same
  exact absurd told.vendor (by decide)

end Report

section Model

/--
Where the family has an extended part, `model_family_stepping` compares the
sum with 0xF, so that it leaves the extended part of the model out.
-/
theorem model_modelFamilyStepping
    {a : UInt32}
    (family : (a >>> 8) &&& 0xF = 0xF)
    (extended : (a >>> 20) &&& 0xFF ≠ 0) :
    (modelFamilyStepping a).model = ((a >>> 4) &&& 0xF).toUInt8 := by
  have below : ((a >>> 20) &&& 0xFF).toNat ≤ 255 := by
    rw [UInt32.toNat_and]
    exact Nat.and_le_right
  have positive : ((a >>> 20) &&& 0xFF).toNat ≠ 0 := by
    intro isZero
    exact extended (UInt32.toNat_inj.mp isZero)
  have sum :
      ((0xF : UInt16) + ((a >>> 20) &&& 0xFF).toUInt16).toNat =
        15 + ((a >>> 20) &&& 0xFF).toNat := by
    rw [UInt16.toNat_add, UInt32.toNat_toUInt16]
    change (15 + _) % _ = _
    omega
  have above {limit : UInt16} (small : limit.toNat ≤ 15) :
      (0xF : UInt16) + ((a >>> 20) &&& 0xFF).toUInt16 ≠ limit := by
    intro same
    have value := congrArg UInt16.toNat same
    rw [sum] at value
    omega
  have notExtended :
      ¬ ((0xF : UInt16) + ((a >>> 20) &&& 0xFF).toUInt16 = 0xF ∨
        (0xF : UInt16) + ((a >>> 20) &&& 0xFF).toUInt16 = 0x6) := by
    rintro (same | same)
    · exact above (by decide) same
    · exact above (by decide) same
  have isF : ((a >>> 8) &&& 0xF).toUInt16 = 0xF := by
    rw [family]
    rfl
  simp only [modelFamilyStepping, isF, ↓reduceIte, if_neg notExtended]

end Model

end Relics.Cpu
