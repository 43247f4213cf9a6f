import Mathlib.Data.List.Nodup
import Mathlib.Data.List.Perm.Subperm
import Relics.E820Setup

namespace Relics.E820

/-!
# When the boot code and the kernel agree on the memory map

Between two calls `print_char` clears bits 8 to 15 of the continuation value
in `ebx`, and the end of the chain is recognised by its low 16 bits alone.
The count is stored in 16 bits and read in 32.  So the kernel reads the
firmware's chain for every firmware that follows it exactly when the memory
next to the count is 0 and the continuation values pass through both tests.
-/

open ByteMemory

/-- A firmware service that gives an entry and the next continuation value. -/
abbrev NextEntry := BitVec 32 → E820Map64 × BitVec 32

/-- The service as the firmware behind `int 0x15`. -/
def service (next : NextEntry) : Firmware :=
  fun _ ebx =>
    { entry := (next ebx).1
      continuation := (next ebx).2
      eax := smapSignature
      cx := smapSize
      carry := false }

/-- A chain of at most 100 distinct continuation values from 0 back to 0. -/
structure Chain where
  later : List (BitVec 32)
  distinct : ((0 : BitVec 32) :: later).Nodup
  atMost : later.length + 1 ≤ e820MaxEntries

/-- The service goes from a value through the rest of a chain and back to 0. -/
def FollowsFrom (next : NextEntry) : BitVec 32 → List (BitVec 32) → Prop
  | value, [] => (next value).2 = 0
  | value, second :: rest =>
      (next value).2 = second ∧ FollowsFrom next second rest

/-- The entries of a chain. -/
def Chain.entries (chain : Chain) (next : NextEntry) : List E820Map64 :=
  (0 :: chain.later).map fun value => (next value).1

/-- The boot loader has cleared `ds`; `ebx` is 0 at the first call. -/
def entered (machine : Machine) : Machine :=
  { machine with ebx := 0, ds := 0 }

/-- The loop ends and the kernel reads the entries of the chain. -/
def Agrees (next : NextEntry) (chain : Chain) (machine : Machine) : Prop :=
  ∃ fuel final,
    e820Setup (service next) fuel (entered machine) = .continues final ∧
      getMemMap final.memory = some (chain.entries next)

/-- A continuation value that both tests between two calls leave alone. -/
def PassesThrough (value : BitVec 32) : Prop :=
  high value = 0 ∧ low value ≠ 0

/-- The values the service is called with from a value on. -/
def visited
    (next : NextEntry) :
    (fuel : Nat) →
    BitVec 32 →
    Option (List (BitVec 32))
  | 0, _ => none
  | fuel + 1, value =>
      if low (next value).2 = 0 then
        some [value]
      else
        (visited next fuel (setHigh (next value).2 0)).map (value :: ·)

/-- Entries written one after the other, the offset in 16 bits. -/
def writeEntries
    (memory : Memory) :
    (offset : BitVec 16) →
    List E820Map64 →
    Memory
  | _, [] => memory
  | offset, entry :: rest =>
      writeEntries (entry.write memory offset.toNat) (offset + smapSize) rest

section Loop

variable
    {next : NextEntry}
    {fuel call : Nat}
    {machine : Machine}

/-- The registers and memory at the start of the next round. -/
def nextRound (next : NextEntry) (machine : Machine) : Machine :=
  printChar
    { machine with
      eax := smapSignature
      ebx := (next machine.ebx).2
      ecx := setLow (setLow machine.ecx smapSize) smapSize
      edx := smapSignature
      esi := setLow machine.esi (low machine.esi + 1)
      edi := setLow machine.edi (low machine.edi + smapSize)
      carry := false
      memory :=
        (next machine.ebx).1.write machine.memory
          (linear machine.es (low machine.edi)) }
    0x3e

/-- A round that does not find the end of the chain leads to the next. -/
theorem setupLoop_continuesLoop
    (more : low (next machine.ebx).2 ≠ 0) :
    setupLoop (service next) (fuel + 1) call machine =
      setupLoop (service next) fuel (call + 1) (nextRound next machine) := by
  simp only [setupLoop, int15, service, low_setLow, nextRound]
  simp [smapSize, BitVec.slt]
  intro finished
  exact absurd finished more

/-- A round that finds the end of the chain stores the count. -/
theorem setupLoop_finishes
    (fuel call : Nat)
    (finished : low (next machine.ebx).2 = 0) :
    ∃ final,
      setupLoop (service next) (fuel + 1) call machine = .continues final ∧
        final.memory =
          store
            ((next machine.ebx).1.write machine.memory
              (linear machine.es (low machine.edi)))
            (16 * machine.ds.toNat + smapCountAddress) 2
            (low machine.esi + 1).toNat := by
  simp only [setupLoop, int15, service, low_setLow]
  simp [finished, smapSize, BitVec.slt, out, low_setLow]

@[simp] theorem nextRound_segments :
    (nextRound next machine).ds = machine.ds ∧
      (nextRound next machine).es = machine.es :=
  ⟨rfl, rfl⟩

@[simp] theorem nextRound_count :
    low (nextRound next machine).esi = low machine.esi + 1 := by
  simp [nextRound, printChar, low_setLow]

@[simp] theorem nextRound_offset :
    low (nextRound next machine).edi = low machine.edi + smapSize := by
  simp [nextRound, printChar, low_setLow]

@[simp] theorem nextRound_memory :
    (nextRound next machine).memory =
      (next machine.ebx).1.write machine.memory
        (linear machine.es (low machine.edi)) :=
  rfl

/-- As long as the service has not stopped, neither has the loop. -/
theorem setupLoop_running
    (running : visited next fuel machine.ebx = none) :
    setupLoop (service next) fuel call machine = .running := by
  induction fuel generalizing call machine with
  | zero =>
      rfl
  | succ fuel inductionHypothesis =>
      by_cases finished : low (next machine.ebx).2 = 0
      · simp [visited, finished] at running
      · rw [setupLoop_continuesLoop finished]
        apply inductionHypothesis
        simp only [visited, finished, ↓reduceIte, Option.map_eq_none_iff]
          at running
        exact running

/--
The loop writes the entries of the visited values one after the other and
stores their number in 16 bits.
-/
theorem setupLoop_continues
    {values : List (BitVec 32)}
    (call : Nat)
    (machine : Machine)
    (segment : machine.es = 0)
    (ends : visited next fuel machine.ebx = some values) :
    ∃ final,
      setupLoop (service next) fuel call machine = .continues final ∧
        final.memory =
          store
            (writeEntries machine.memory (low machine.edi)
              (values.map fun value => (next value).1))
            (16 * machine.ds.toNat + smapCountAddress) 2
            (low machine.esi + BitVec.ofNat 16 values.length).toNat := by
  induction fuel generalizing call machine values with
  | zero =>
      simp [visited] at ends
  | succ fuel inductionHypothesis =>
      have address :
          linear machine.es (low machine.edi) = (low machine.edi).toNat := by
        simp [linear, segment]
      by_cases finished : low (next machine.ebx).2 = 0
      · have only : values = [machine.ebx] := by
          simpa [visited, finished, eq_comm] using ends
        obtain ⟨final, run, memory⟩ := setupLoop_finishes fuel call finished
        refine ⟨final, run, ?_⟩
        simp [memory, only, writeEntries, address]
      · simp only [visited, finished, ↓reduceIte, Option.map_eq_some_iff]
          at ends
        obtain ⟨rest, restEnds, rfl⟩ := ends
        obtain ⟨final, run, memory⟩ :=
          inductionHypothesis (call + 1) (nextRound next machine)
            segment restEnds
        rw [setupLoop_continuesLoop finished]
        refine ⟨final, run, ?_⟩
        have count :
            low machine.esi + 1 + BitVec.ofNat 16 rest.length =
              low machine.esi + BitVec.ofNat 16 (rest.length + 1) := by
          rw [BitVec.add_assoc, Nat.add_comm rest.length 1, BitVec.ofNat_add]
          rfl
        rw [memory, nextRound_memory, nextRound_offset, nextRound_count,
          nextRound_segments.1, address, count]
        rfl

end Loop

section Buffer

variable
    {memory : Memory}
    {offset : BitVec 16}
    {entries : List E820Map64}

/-- The next entry starts 20 bytes further on. -/
theorem toNat_nextOffset
    {count : Nat}
    (fits : offset.toNat + e820EntrySize * (count + 1) ≤ 65535) :
    (offset + smapSize).toNat = offset.toNat + e820EntrySize := by
  have size : smapSize.toNat = e820EntrySize := rfl
  simp only [e820EntrySize] at fits size
  rw [BitVec.toNat_add_of_lt (by omega), size, e820EntrySize]

/-- Entries that do not wrap around change only their own bytes. -/
theorem writeEntries_outside
    {other : Nat}
    (fits : offset.toNat + e820EntrySize * entries.length ≤ 65535)
    (outside :
      other < offset.toNat ∨
        offset.toNat + e820EntrySize * entries.length ≤ other) :
    writeEntries memory offset entries other = memory other := by
  induction entries generalizing memory offset with
  | nil =>
      rfl
  | cons entry rest inductionHypothesis =>
      rw [List.length_cons] at fits outside
      have next := toNat_nextOffset fits
      rw [Nat.mul_succ] at fits outside
      rw [writeEntries, inductionHypothesis (by omega) (by omega)]
      exact E820Map64.write_outside (by omega)

/-- Entries that do not wrap around are read back in order. -/
theorem read_writeEntries
    (memory : Memory)
    (offset : BitVec 16)
    (fits : offset.toNat + e820EntrySize * entries.length ≤ 65535) :
    ((List.range entries.length).map fun i =>
      E820Map64.read (writeEntries memory offset entries)
        (offset.toNat + e820EntrySize * i)) = entries := by
  induction entries generalizing memory offset with
  | nil =>
      rfl
  | cons entry rest inductionHypothesis =>
      rw [List.length_cons] at fits ⊢
      have next := toNat_nextOffset fits
      rw [Nat.mul_succ] at fits
      have first :
          E820Map64.read
              (writeEntries (entry.write memory offset.toNat)
                (offset + smapSize) rest) offset.toNat = entry := by
        rw [← E820Map64.read_write_same memory offset.toNat entry]
        apply E820Map64.read_congr
        intro other _ upper
        rw [E820Map64.read_write_same]
        exact writeEntries_outside (by omega) (Or.inl (by omega))
      have others :=
        inductionHypothesis (entry.write memory offset.toNat)
          (offset + smapSize) (by omega)
      rw [List.range_succ_eq_map, List.map_cons, List.map_map, writeEntries]
      simp only [Nat.mul_zero, Nat.add_zero, first, List.cons.injEq, true_and]
      rw [next] at others
      refine Eq.trans (List.map_congr_left fun i _ => ?_) others
      simp only [Function.comp_apply, Nat.mul_succ]
      congr 1
      omega

/-- Memory after the entries and their count have been stored. -/
def collected (memory : Memory) (entries : List E820Map64) : Memory :=
  store (writeEntries memory (BitVec.ofNat 16 smapAddress) entries)
    smapCountAddress 2 (BitVec.ofNat 16 entries.length).toNat

/-- The kernel's 32-bit count has the two bytes after the 16-bit one above. -/
theorem load_count_collected
    (short : entries.length ≤ e820MaxEntries + 1) :
    load (collected memory entries) smapCountAddress 4 =
      entries.length + 65536 * load memory (smapCountAddress + 2) 2 := by
  have few : entries.length ≤ 101 := short
  have count :
      load (collected memory entries) smapCountAddress 2 = entries.length := by
    rw [collected, load_store_same, BitVec.toNat_ofNat]
    omega
  have above :
      load (collected memory entries) (smapCountAddress + 2) 2 =
        load memory (smapCountAddress + 2) 2 := by
    rw [collected, load_store_apart (by omega)]
    apply load_congr
    intro other _ upper
    have below : other < 0x700 := by
      simp only [smapCountAddress] at upper
      omega
    apply writeEntries_outside
    · simp only [BitVec.toNat_ofNat, smapAddress, e820EntrySize]
      omega
    · exact Or.inl below
  rw [load_add _ _ 2 2, count, above]
  rfl

/-- The kernel reads what was collected if the bytes above the count are 0. -/
theorem getMemMap_collected
    (short : entries.length ≤ e820MaxEntries + 1)
    (expected : List E820Map64) :
    getMemMap (collected memory entries) = some expected ↔
      entries.length ≤ e820MaxEntries ∧
        load memory (smapCountAddress + 2) 2 = 0 ∧ entries = expected := by
  have reads :
      ((List.range entries.length).map fun i =>
        E820Map64.read (collected memory entries)
          (smapAddress + e820EntrySize * i)) = entries := by
    have fits :
        (BitVec.ofNat 16 smapAddress).toNat +
          e820EntrySize * entries.length ≤ 65535 := by
      simp only [BitVec.toNat_ofNat, smapAddress, e820EntrySize]
      have few : entries.length ≤ 101 := short
      omega
    refine Eq.trans (List.map_congr_left fun i _ => ?_)
      (read_writeEntries memory _ fits)
    apply E820Map64.read_congr
    intro other lower _
    apply store_outside
    right
    simp only [smapCountAddress, smapAddress] at lower ⊢
    omega
  rw [getMemMap, load_count_collected short]
  by_cases clear : load memory (smapCountAddress + 2) 2 = 0
  · simp only [clear, Nat.mul_zero, Nat.add_zero, reads]
    by_cases many : entries.length > e820MaxEntries
    · simp [many]
    · simp [many, Nat.le_of_not_gt many]
  · have many :
        entries.length + 65536 * load memory (smapCountAddress + 2) 2 >
          e820MaxEntries := by
      simp only [e820MaxEntries]
      omega
    simp [many, clear]

end Buffer

section Walk

variable
    {next : NextEntry}
    {fuel : Nat}
    {value : BitVec 32}
    {values later : List (BitVec 32)}

/-- Values that pass through are visited in the order of the chain. -/
theorem visited_of_passesThrough
    (follows : FollowsFrom next value later)
    (passes : ∀ other ∈ later, PassesThrough other) :
    visited next (later.length + 1) value = some (value :: later) := by
  induction later generalizing value with
  | nil =>
      have last : (next value).2 = 0 := follows
      have finished : low (next value).2 = 0 := by
        rw [last]
        rfl
      rw [visited, if_pos finished]
  | cons second rest inductionHypothesis =>
      obtain ⟨goesOn, restFollows⟩ := follows
      obtain ⟨⟨clear, more⟩, restPasses⟩ := List.forall_mem_cons.mp passes
      have same : setHigh second 0 = second := setHigh_zero_eq_self.mpr clear
      rw [visited, goesOn, if_neg more, same, List.length_cons,
        inductionHypothesis restFollows restPasses]
      rfl

/-- The values a service is called with until the end is recognised. -/
inductive Walk (next : NextEntry) : BitVec 32 → List (BitVec 32) → Prop where
  | last
      {value : BitVec 32}
      (finished : low (next value).2 = 0) :
      Walk next value [value]
  | more
      {value : BitVec 32}
      {rest : List (BitVec 32)}
      (unfinished : low (next value).2 ≠ 0)
      (walk : Walk next (setHigh (next value).2 0) rest) :
      Walk next value (value :: rest)

theorem walk_of_visited
    (ends : visited next fuel value = some values) :
    Walk next value values := by
  induction fuel generalizing value values with
  | zero =>
      cases ends
  | succ fuel inductionHypothesis =>
      rw [visited] at ends
      split at ends
      · rename_i finished
        obtain rfl := Option.some.inj ends
        exact .last finished
      · rename_i unfinished
        obtain ⟨rest, restEnds, rfl⟩ := Option.map_eq_some_iff.mp ends
        exact .more unfinished (inductionHypothesis restEnds)

/-- A walk starts with the value it is started at. -/
theorem Walk.head
    (walk : Walk next value values) :
    ∃ rest, values = value :: rest := by
  cases walk with
  | last => exact ⟨[], rfl⟩
  | more => exact ⟨_, rfl⟩

/-- If the chain is visited in its order, its values pass through. -/
theorem Walk.passesThrough
    (follows : FollowsFrom next value later)
    (walk : Walk next value (value :: later)) :
    ∀ other ∈ later, PassesThrough other := by
  induction later generalizing value with
  | nil =>
      simp
  | cons second rest inductionHypothesis =>
      obtain ⟨goesOn, restFollows⟩ := follows
      cases walk with
      | more unfinished restWalk =>
          rw [goesOn] at unfinished restWalk
          obtain ⟨_, sameHead⟩ := restWalk.head
          have same : setHigh second 0 = second :=
            (List.cons.inj sameHead).1.symm
          rw [same] at restWalk
          rw [List.forall_mem_cons]
          exact
            ⟨⟨setHigh_zero_eq_self.mp same, unfinished⟩,
              inductionHypothesis restFollows restWalk⟩

/-- There is only one walk from a value. -/
theorem Walk.unique
    {others : List (BitVec 32)}
    (walk : Walk next value values)
    (other : Walk next value others) :
    values = others := by
  induction walk generalizing others with
  | last finished =>
      cases other with
      | last => rfl
      | more unfinished => exact absurd finished unfinished
  | more unfinished _ inductionHypothesis =>
      cases other with
      | last finished => exact absurd finished unfinished
      | more _ restWalk => rw [inductionHypothesis restWalk]

/-- From every visited value there is a walk that is no longer. -/
theorem Walk.from_mem
    {other : BitVec 32}
    (walk : Walk next value values)
    (member : other ∈ values) :
    ∃ others, Walk next other others ∧ others.length ≤ values.length := by
  induction walk with
  | last finished =>
      obtain rfl := List.mem_singleton.mp member
      exact ⟨_, .last finished, Nat.le_refl _⟩
  | more unfinished restWalk inductionHypothesis =>
      rcases List.mem_cons.mp member with rfl | later
      · exact ⟨_, .more unfinished restWalk, Nat.le_refl _⟩
      · obtain ⟨others, otherWalk, shorter⟩ := inductionHypothesis later
        exact ⟨others, otherWalk, Nat.le_succ_of_le shorter⟩

/-- A walk that ends visits no value twice. -/
theorem Walk.nodup
    (walk : Walk next value values) :
    values.Nodup := by
  induction walk with
  | last =>
      exact List.nodup_singleton _
  | more unfinished restWalk inductionHypothesis =>
      apply List.nodup_cons.mpr
      refine ⟨?_, inductionHypothesis⟩
      intro again
      obtain ⟨others, otherWalk, shorter⟩ := restWalk.from_mem again
      obtain rfl := (Walk.more unfinished restWalk).unique otherWalk
      exact absurd shorter (Nat.not_succ_le_self _)

/-- Before the last value of a walk the end has not been recognised. -/
theorem Walk.unfinished
    (walk : Walk next value values) :
    ∀ other ∈ values.dropLast, low (next other).2 ≠ 0 := by
  induction walk with
  | last =>
      simp
  | more unfinished restWalk inductionHypothesis =>
      obtain ⟨tail, rfl⟩ := restWalk.head
      rw [List.dropLast_cons_cons]
      exact List.forall_mem_cons.mpr ⟨unfinished, inductionHypothesis⟩

end Walk

section Distinguishing

/-- The value after a given one in a list, or 0. -/
def successor : List (BitVec 32) → BitVec 32 → BitVec 32
  | first :: second :: rest, value =>
      if value = first then second else successor (second :: rest) value
  | _, _ => 0

/-- A service for a chain that returns a different entry for every value. -/
def distinguishing (chain : Chain) : NextEntry :=
  fun value =>
    ({ baseaddr := UInt64.ofNat value.toNat
       length := 0
       entryType := 0 },
      successor (0 :: chain.later) value)

/-- Only a value of the list has one after it. -/
theorem mem_of_successor
    {values : List (BitVec 32)}
    {value : BitVec 32}
    (goesOn : successor values value ≠ 0) :
    value ∈ values := by
  induction values, value using successor.induct with
  | case1 first second rest =>
      exact List.mem_cons_self
  | case2 first second rest value different inductionHypothesis =>
      rw [successor, if_neg different] at goesOn
      exact List.mem_cons_of_mem _ (inductionHypothesis goesOn)
  | case3 values value short =>
      rw [successor] at goesOn
      · exact absurd rfl goesOn
      · exact short

/-- A service that returns the value after each one follows the list. -/
theorem followsFrom_successor
    {next : NextEntry}
    {value : BitVec 32}
    {later : List (BitVec 32)}
    (distinct : (value :: later).Nodup)
    (returns :
      ∀ other ∈ value :: later,
        (next other).2 = successor (value :: later) other) :
    FollowsFrom next value later := by
  induction later generalizing value with
  | nil =>
      exact returns value List.mem_cons_self
  | cons second rest inductionHypothesis =>
      obtain ⟨fresh, restDistinct⟩ := List.nodup_cons.mp distinct
      constructor
      · rw [returns value List.mem_cons_self, successor, if_pos rfl]
      · apply inductionHypothesis restDistinct
        intro other member
        have different : other ≠ value := fun same => fresh (same ▸ member)
        rw [returns other (List.mem_cons_of_mem _ member), successor,
          if_neg different]

/-- Different values have different entries. -/
theorem distinguishing_injective
    (chain : Chain) :
    Function.Injective fun value => (distinguishing chain value).1 := by
  intro first second same
  have bases :
      UInt64.ofNat first.toNat = UInt64.ofNat second.toNat :=
    congrArg E820Map64.baseaddr same
  apply BitVec.eq_of_toNat_eq
  have sameBase := congrArg UInt64.toNat bases
  have fits :
      ∀ value : BitVec 32, value.toNat < UInt64.size := by
    intro value
    exact Nat.lt_trans value.isLt (by decide)
  rwa [UInt64.toNat_ofNat_of_lt' (fits first),
    UInt64.toNat_ofNat_of_lt' (fits second)] at sameBase

/-- A walk of this service visits at most one value outside the chain. -/
theorem length_walk_distinguishing
    {chain : Chain}
    {value : BitVec 32}
    {values : List (BitVec 32)}
    (walk : Walk (distinguishing chain) value values) :
    values.length ≤ e820MaxEntries + 1 := by
  have distinct : values.dropLast.Nodup :=
    walk.nodup.sublist (List.dropLast_sublist values)
  have onChain : values.dropLast ⊆ 0 :: chain.later := by
    intro other member
    apply mem_of_successor
    intro stops
    apply walk.unfinished other member
    change low (successor (0 :: chain.later) other) = 0
    rw [stops]
    rfl
  have bound := (distinct.subperm onChain).length_le
  have atMost := chain.atMost
  rw [List.length_dropLast, List.length_cons] at bound
  omega

end Distinguishing

section Agreement

variable
    {next : NextEntry}
    {chain : Chain}
    {machine : Machine}

/-- The bytes just above the stored count are 0. -/
def ClearAboveCount (memory : Memory) : Prop :=
  memory (smapCountAddress + 2) = 0 ∧ memory (smapCountAddress + 3) = 0

theorem clearAboveCount_iff
    {memory : Memory} :
    ClearAboveCount memory ↔ load memory (smapCountAddress + 2) 2 = 0 := by
  have next : smapCountAddress + 2 + 1 = smapCountAddress + 3 := rfl
  simp only [ClearAboveCount, load, next]
  constructor
  · rintro ⟨first, second⟩
    simp [first, second]
  · intro zero
    have first : (memory (smapCountAddress + 2)).toNat = 0 := by omega
    have second : (memory (smapCountAddress + 3)).toNat = 0 := by omega
    exact ⟨UInt8.toNat_inj.mp first, UInt8.toNat_inj.mp second⟩

/-- The machine at the first round of the loop. -/
def started (machine : Machine) : Machine :=
  { machine with
    ebx := 0
    esi := setLow machine.esi 0
    edi := setLow machine.edi (BitVec.ofNat 16 smapAddress)
    ds := 0
    es := 0
    carry := false }

theorem e820Setup_entered
    (firmware : Firmware)
    (fuel : Nat) :
    e820Setup firmware fuel (entered machine) =
      setupLoop firmware fuel 0 (started machine) := by
  have cleared : setLow 0 0 = 0 := by decide
  have segment : low 0 = 0 := by decide
  simp only [e820Setup, entered, started, cleared, segment]

/-- When the walk ends, the loop has collected the entries of its values. -/
theorem e820Setup_continues
    (machine : Machine)
    {fuel : Nat}
    {values : List (BitVec 32)}
    (ends : visited next fuel 0 = some values) :
    ∃ final,
      e820Setup (service next) fuel (entered machine) = .continues final ∧
        final.memory =
          collected machine.memory
            (values.map fun value => (next value).1) := by
  obtain ⟨final, run, memory⟩ :=
    setupLoop_continues 0 (started machine) rfl ends
  refine ⟨final, (e820Setup_entered _ _).trans run, ?_⟩
  have count : low (started machine).esi = 0 := low_setLow 0
  have offset :
      low (started machine).edi = BitVec.ofNat 16 smapAddress :=
    low_setLow _
  have total :
      (0 : BitVec 16) + BitVec.ofNat 16 values.length =
        BitVec.ofNat 16 values.length :=
    BitVec.zero_add _
  rw [memory, count, offset, total, collected, List.length_map]
  rfl

/-- Agreement, in terms of the values the service is called with. -/
theorem agrees_iff_visited :
    Agrees next chain machine ↔
      ∃ fuel values,
        visited next fuel 0 = some values ∧
          getMemMap
            (collected machine.memory
              (values.map fun value => (next value).1)) =
            some (chain.entries next) := by
  constructor
  · rintro ⟨fuel, final, run, reads⟩
    cases walk : visited next fuel 0 with
    | none =>
        have running :
            setupLoop (service next) fuel 0 (started machine) = .running :=
          setupLoop_running walk
        rw [e820Setup_entered, running] at run
        cases run
    | some values =>
        obtain ⟨last, lastRun, memory⟩ := e820Setup_continues machine walk
        rw [lastRun] at run
        cases run
        exact ⟨fuel, values, walk, memory ▸ reads⟩
  · rintro ⟨fuel, values, walk, reads⟩
    obtain ⟨final, run, memory⟩ := e820Setup_continues machine walk
    exact ⟨fuel, final, run, memory ▸ reads⟩

/-- The boot code and the kernel agree if every value passes through. -/
theorem agrees_of_passesThrough
    (follows : FollowsFrom next 0 chain.later)
    (clear : ClearAboveCount machine.memory)
    (passes : ∀ value ∈ chain.later, PassesThrough value) :
    Agrees next chain machine := by
  rw [agrees_iff_visited]
  refine ⟨_, _, visited_of_passesThrough follows passes, ?_⟩
  have length :
      ((0 :: chain.later).map fun value => (next value).1).length ≤
        e820MaxEntries := by
    rw [List.length_map]
    exact chain.atMost
  rw [getMemMap_collected (Nat.le_succ_of_le length)]
  exact ⟨length, clearAboveCount_iff.mp clear, rfl⟩

/-- For the service with different entries agreement needs both conditions. -/
theorem passesThrough_of_agrees
    (agrees : Agrees (distinguishing chain) chain machine) :
    ClearAboveCount machine.memory ∧
      ∀ value ∈ chain.later, PassesThrough value := by
  obtain ⟨fuel, values, ends, reads⟩ := agrees_iff_visited.mp agrees
  have walk := walk_of_visited ends
  have short :
      (values.map fun value => (distinguishing chain value).1).length ≤
        e820MaxEntries + 1 := by
    rw [List.length_map]
    exact length_walk_distinguishing walk
  obtain ⟨-, clear, sameEntries⟩ := (getMemMap_collected short _).mp reads
  have inOrder : values = 0 :: chain.later :=
    (distinguishing_injective chain).list_map sameEntries
  rw [inOrder] at walk
  have follows : FollowsFrom (distinguishing chain) 0 chain.later :=
    followsFrom_successor chain.distinct fun _ _ => rfl
  exact
    ⟨clearAboveCount_iff.mpr clear, walk.passesThrough follows⟩

/--
The kernel reads the entries of a chain, for every service that follows it,
exactly when the two bytes above the stored count are 0 and every
continuation value of the chain passes through both tests between two calls.
-/
theorem agrees_iff
    (chain : Chain)
    (machine : Machine) :
    (∀ next,
        FollowsFrom next 0 chain.later →
        Agrees next chain machine) ↔
      ClearAboveCount machine.memory ∧
        ∀ value ∈ chain.later, PassesThrough value := by
  constructor
  · intro agrees
    apply passesThrough_of_agrees
    exact agrees _ (followsFrom_successor chain.distinct fun _ _ => rfl)
  · rintro ⟨clear, passes⟩ next follows
    exact agrees_of_passesThrough follows clear passes

/-- The chain of the two values 0 and 0x100. -/
def pagedChain : Chain where
  later := [0x100]
  distinct := by decide
  atMost := by decide

/-- All registers and all of memory are 0. -/
def zeroed : Machine where
  eax := 0
  ebx := 0
  ecx := 0
  edx := 0
  esi := 0
  edi := 0
  ds := 0
  es := 0
  carry := false
  memory := fun _ => 0

/-- With a second value of 0x100 the first call is made again and again. -/
theorem e820Setup_pagedChain
    (fuel : Nat) :
    e820Setup (service (distinguishing pagedChain)) fuel (entered zeroed) =
      .running := by
  rw [e820Setup_entered]
  apply setupLoop_running
  change visited (distinguishing pagedChain) fuel 0 = none
  induction fuel with
  | zero =>
      rfl
  | succ fuel inductionHypothesis =>
      have more : low (distinguishing pagedChain 0).2 ≠ 0 := by decide
      have again : setHigh (distinguishing pagedChain 0).2 0 = 0 := by decide
      rw [visited, if_neg more, again, inductionHypothesis]
      rfl

/-- The chain of the values 0 and 0x100 is not read, although 0x6f2 holds 0. -/
theorem not_agrees_pagedChain :
    FollowsFrom (distinguishing pagedChain) 0 pagedChain.later ∧
      ¬ Agrees (distinguishing pagedChain) pagedChain zeroed := by
  constructor
  · exact ⟨rfl, rfl⟩
  · rintro ⟨fuel, final, run, -⟩
    rw [e820Setup_pagedChain] at run
    cases run

end Agreement

end Relics.E820
