import Relics.E820Agreement
import Relics.KernelMemory

namespace Relics.E820

/-!
# How far `e820_setup` writes

The loop of `e820_setup` ends when the firmware says so and counts no further
than that: `SMAP_MAX_AMT` is not used.  The n-th call hands the firmware the
20 bytes at `0x700 + 20 * n`, so the writes stay in the table exactly when one
of the first 100 replies ends the chain.
-/

open ByteMemory

/-- One round of the loop: how it ends, or the machine at the next round. -/
def round
    (firmware : Firmware)
    (call : Nat)
    (machine : Machine) :
    Result ⊕ Machine :=
  let machine := { machine with eax := setLow machine.eax 0xE820 }
  let machine := { machine with ecx := setLow machine.ecx smapSize }
  let machine := { machine with edx := smapSignature }
  let machine := int15 firmware call machine
  if machine.carry then
    .inl (out machine)
  else if machine.eax ≠ smapSignature then
    .inl .errorSig
  else if (low machine.ecx).slt smapSize then
    .inl .errorSize
  else
    let machine :=
      { machine with esi := setLow machine.esi (low machine.esi + 1) }
    if low machine.ebx = 0 then
      .inl (out machine)
    else
      let machine :=
        { machine with
          edi := setLow machine.edi (low machine.edi + low machine.ecx) }
      .inr (printChar machine 0x3e)

/-- The machine at the first round. -/
def prepared (machine : Machine) : Machine :=
  { machine with
    ebx := setLow machine.ebx 0
    esi := setLow machine.esi 0
    edi := setLow machine.edi (BitVec.ofNat 16 smapAddress)
    es := 0
    carry := false }

/-- The rounds that are entered; each one makes a call of `int 0x15`. -/
inductive Entered
    (firmware : Firmware)
    (machine : Machine) :
    (call : Nat) →
    Machine →
    Prop where
  | first :
      Entered firmware machine 0 (prepared machine)
  | again
      {call : Nat}
      {current next : Machine}
      (entered : Entered firmware machine call current)
      (goesOn : round firmware call current = .inr next) :
      Entered firmware machine (call + 1) next

/-- A byte that the firmware writes for a call, or `out` for the count. -/
inductive Writes
    (firmware : Firmware)
    (machine : Machine)
    (address : Nat) :
    Prop where
  | entry
      {call : Nat}
      {current : Machine}
      (entered : Entered firmware machine call current)
      (lower : linear current.es (low current.edi) ≤ address)
      (upper :
        address < linear current.es (low current.edi) + e820EntrySize)
  | count
      {call : Nat}
      {current final : Machine}
      (entered : Entered firmware machine call current)
      (ends : round firmware call current = .inl (.continues final))
      (lower : 16 * current.ds.toNat + smapCountAddress ≤ address)
      (upper : address < 16 * current.ds.toNat + smapCountAddress + 2)

/-- At most 100 entries are stored, and every write is to count or table. -/
structure StaysInTable (firmware : Firmware) (machine : Machine) : Prop where
  entries :
    ∀ call current,
      Entered firmware machine call current →
      (firmware call current.ebx).carry = false →
      call < e820MaxEntries
  bytes :
    ∀ address,
      Writes firmware machine address →
      (0x6f0 ≤ address ∧ address ≤ 0x6f3) ∨
        (0x700 ≤ address ∧ address ≤ 0x700 + 1999)
  belowKernel :
    ∀ address,
      Writes firmware machine address → address < kernelLocation

/-- Every reply has the signature and the size that the service promises. -/
def Conforms (firmware : Firmware) : Prop :=
  ∀ call ebx,
    (firmware call ebx).eax = smapSignature ∧
      (firmware call ebx).cx = smapSize

/-- The value in `ebx` at a call, the upper half of the first one given. -/
def ebxAt (firmware : Firmware) (ebx : BitVec 32) : Nat → BitVec 32
  | 0 => setLow ebx 0
  | call + 1 =>
      setHigh (firmware call (ebxAt firmware ebx call)).continuation 0

/-- The reply that ends the chain, by the carry or by the continuation. -/
def Reply.EndsChain (reply : Reply) : Prop :=
  reply.carry = true ∨ low reply.continuation = 0

instance (reply : Reply) : Decidable reply.EndsChain :=
  inferInstanceAs (Decidable (_ ∨ _))

/-- The memory after the firmware has written its entry for a call. -/
def withEntry
    (firmware : Firmware)
    (call : Nat)
    (machine : Machine) :
    Memory :=
  (firmware call machine.ebx).entry.write machine.memory
    (linear machine.es (low machine.edi))

/-- What a round leaves to the next one. -/
structure Advances
    (firmware : Firmware)
    (call : Nat)
    (machine next : Machine) :
    Prop where
  notEnded : ¬ (firmware call machine.ebx).EndsChain
  ebx : next.ebx = setHigh (firmware call machine.ebx).continuation 0
  offset : low next.edi = low machine.edi + (firmware call machine.ebx).cx
  ds : next.ds = machine.ds
  es : next.es = machine.es
  memory : next.memory = withEntry firmware call machine

/-- A round that ends the loop stores the count behind the entry. -/
def Finishes
    (firmware : Firmware)
    (call : Nat)
    (machine final : Machine) :
    Prop :=
  ∃ count,
    final.memory =
      store (withEntry firmware call machine)
        (16 * machine.ds.toNat + smapCountAddress) 2 count

section Rounds

variable
    {firmware : Firmware}
    {call fuel : Nat}
    {machine next final : Machine}

/-- The loop is its first round and then the loop. -/
theorem setupLoop_succ :
    setupLoop firmware (fuel + 1) call machine =
      match round firmware call machine with
      | .inl result => result
      | .inr next => setupLoop firmware fuel (call + 1) next := by
  simp only [setupLoop, round]
  split_ifs <;> rfl

/-- `e820_setup` is its loop on the prepared machine. -/
theorem e820Setup_eq_setupLoop :
    e820Setup firmware fuel machine =
      setupLoop firmware fuel 0 (prepared machine) := by
  have segment : low (setLow machine.ebx 0) = 0 := low_setLow 0
  simp only [e820Setup, prepared, segment]

/-- A round ends the loop, stops the machine or goes on. -/
theorem round_cases
    (firmware : Firmware)
    (call : Nat)
    (machine : Machine) :
    (∃ final,
        round firmware call machine = .inl (.continues final) ∧
          Finishes firmware call machine final) ∨
      round firmware call machine = .inl .errorSig ∨
      round firmware call machine = .inl .errorSize ∨
      ∃ next,
        round firmware call machine = .inr next ∧
          Advances firmware call machine next := by
  by_cases carry : (firmware call machine.ebx).carry = true
  · left
    simp only [round, int15, carry, ↓reduceIte]
    exact ⟨_, rfl, _, rfl⟩
  by_cases signature : (firmware call machine.ebx).eax = smapSignature
  swap
  · right; left
    simp [round, int15, carry, signature]
  by_cases size : (firmware call machine.ebx).cx.slt smapSize = true
  · right; right; left
    simp [round, int15, carry, signature, size, low_setLow]
  by_cases finished : low (firmware call machine.ebx).continuation = 0
  · left
    simp only [round, int15, carry, signature, size, finished, low_setLow,
      ne_eq, not_true_eq_false, ↓reduceIte]
    exact ⟨_, rfl, _, rfl⟩
  · right; right; right
    simp only [round, int15, carry, signature, size, finished, low_setLow,
      ne_eq, not_true_eq_false, ↓reduceIte]
    exact ⟨_, rfl, {
      notEnded := not_or.mpr ⟨carry, finished⟩
      ebx := rfl
      offset := low_setLow _
      ds := rfl
      es := rfl
      memory := rfl }⟩

theorem advances_of_round
    (goesOn : round firmware call machine = .inr next) :
    Advances firmware call machine next := by
  rcases round_cases firmware call machine with
      ⟨_, ends, _⟩ | ends | ends | ⟨other, goesOn', advances⟩
  · rw [ends] at goesOn
    cases goesOn
  · rw [ends] at goesOn
    cases goesOn
  · rw [ends] at goesOn
    cases goesOn
  · rw [goesOn'] at goesOn
    obtain rfl := Sum.inr.inj goesOn
    exact advances

/-- A conforming reply leads to another round unless it ends the chain. -/
theorem round_of_conforms
    (conforms : Conforms firmware)
    (goesOn : ¬ (firmware call machine.ebx).EndsChain) :
    ∃ next, round firmware call machine = .inr next := by
  obtain ⟨noCarry, unfinished⟩ := not_or.mp goesOn
  obtain ⟨signature, size⟩ := conforms call machine.ebx
  have inFull : ¬ smapSize.slt smapSize = true := by decide
  simp only [round, int15, low_setLow, signature, size, noCarry, unfinished,
    inFull, ne_eq, not_true_eq_false, ↓reduceIte]
  exact ⟨_, rfl⟩

end Rounds

section Calls

variable
    {firmware : Firmware}
    {machine current final : Machine}
    {call fuel address : Nat}

/-- The reply to a call. -/
def replyAt (firmware : Firmware) (ebx : BitVec 32) (call : Nat) : Reply :=
  firmware call (ebxAt firmware ebx call)

/-- The registers a call depends on. -/
structure AtCall
    (firmware : Firmware)
    (machine : Machine)
    (call : Nat)
    (current : Machine) :
    Prop where
  ebx : current.ebx = ebxAt firmware machine.ebx call
  offset :
    low current.edi = BitVec.ofNat 16 (smapAddress + e820EntrySize * call)
  ds : current.ds = machine.ds
  es : current.es = 0

/-- An entry is written to its own bytes. -/
theorem withEntry_untouched
    (entered : Entered firmware machine call current)
    (untouched : ¬ Writes firmware machine address) :
    withEntry firmware call current address = current.memory address := by
  apply E820Map64.write_outside
  by_contra! inside
  exact untouched (.entry entered inside.1 inside.2)

/-- The rest of the loop changes only bytes that are written. -/
theorem setupLoop_untouched
    (entered : Entered firmware machine call current)
    (ends : setupLoop firmware fuel call current = .continues final)
    (untouched : ¬ Writes firmware machine address) :
    final.memory address = current.memory address := by
  induction fuel generalizing call current with
  | zero =>
      cases ends
  | succ fuel inductionHypothesis =>
      rw [setupLoop_succ] at ends
      rcases round_cases firmware call current with
          ⟨last, finished, count, stored⟩ | failed | failed |
            ⟨next, goesOn, advances⟩
      · rw [finished] at ends
        obtain rfl := Result.continues.inj ends
        have offCount :
            address < 16 * current.ds.toNat + smapCountAddress ∨
              16 * current.ds.toNat + smapCountAddress + 2 ≤ address := by
          by_contra! inside
          exact untouched (.count entered finished inside.1 inside.2)
        rw [stored, store_outside offCount,
          withEntry_untouched entered untouched]
      · rw [failed] at ends
        cases ends
      · rw [failed] at ends
        cases ends
      · rw [goesOn] at ends
        rw [inductionHypothesis (entered.again goesOn) ends, advances.memory,
          withEntry_untouched entered untouched]

/-- `e820_setup` and the firmware change only bytes that are written. -/
theorem e820Setup_untouched
    (ends : e820Setup firmware fuel machine = .continues final)
    (untouched : ¬ Writes firmware machine address) :
    final.memory address = machine.memory address := by
  rw [e820Setup_eq_setupLoop] at ends
  have inLoop := setupLoop_untouched .first ends untouched
  exact inLoop

variable
    (conforms : Conforms firmware)

include conforms

/-- The n-th call is made with the 20 bytes behind n entries. -/
theorem atCall_of_entered
    (entered : Entered firmware machine call current) :
    AtCall firmware machine call current := by
  induction entered with
  | first =>
      exact {
        ebx := rfl
        offset := low_setLow _
        ds := rfl
        es := rfl }
  | @again call current next _ goesOn inductionHypothesis =>
      have advances := advances_of_round goesOn
      have size := (conforms call current.ebx).2
      exact {
        ebx := by
          rw [advances.ebx, inductionHypothesis.ebx]
          rfl
        offset := by
          rw [advances.offset, size, inductionHypothesis.offset,
            Nat.mul_succ, ← Nat.add_assoc]
          exact (BitVec.ofNat_add _ e820EntrySize).symm
        ds := advances.ds.trans inductionHypothesis.ds
        es := advances.es.trans inductionHypothesis.es }

/-- A call is made exactly if no reply before it has ended the chain. -/
theorem entered_iff :
    (∃ current, Entered firmware machine call current) ↔
      ∀ earlier < call,
        ¬ (replyAt firmware machine.ebx earlier).EndsChain := by
  induction call with
  | zero =>
      exact
        iff_of_true ⟨_, .first⟩ fun _ before =>
          absurd before (Nat.not_lt_zero _)
  | succ call inductionHypothesis =>
      rw [Nat.forall_lt_succ_right, ← inductionHypothesis]
      constructor
      · rintro ⟨next, entered⟩
        cases entered with
        | @again _ current _ earlier goesOn =>
            have ebx := (atCall_of_entered conforms earlier).ebx
            have notEnded := (advances_of_round goesOn).notEnded
            rw [ebx] at notEnded
            exact ⟨⟨current, earlier⟩, notEnded⟩
      · rintro ⟨⟨current, earlier⟩, notEnded⟩
        have ebx := (atCall_of_entered conforms earlier).ebx
        rw [replyAt, ← ebx] at notEnded
        obtain ⟨next, goesOn⟩ := round_of_conforms conforms notEnded
        exact ⟨next, earlier.again goesOn⟩

/-- The buffer of each of the first 100 calls is in the table. -/
theorem buffer_of_entered
    (entered : Entered firmware machine call current)
    (early : call ≤ e820MaxEntries) :
    linear current.es (low current.edi) =
      smapAddress + e820EntrySize * call := by
  have atCall := atCall_of_entered conforms entered
  have segment : (0 : BitVec 16).toNat = 0 := rfl
  rw [linear, atCall.es, atCall.offset, BitVec.toNat_ofNat, segment]
  unfold smapAddress e820EntrySize
  unfold e820MaxEntries at early
  omega

/-- The writes of the first 100 calls stay in the table. -/
theorem staysInTable_of_ends
    (segment : machine.ds = 0)
    (ends :
      ∃ call < e820MaxEntries,
        (replyAt firmware machine.ebx call).EndsChain) :
    StaysInTable firmware machine := by
  obtain ⟨lastCall, early, ended⟩ := ends
  have noneLater :
      ∀ {call current},
        Entered firmware machine call current → call < e820MaxEntries := by
    intro call current entered
    by_contra! late
    have before := (entered_iff conforms).mp ⟨current, entered⟩
    exact before lastCall (by omega) ended
  have bytes :
      ∀ address,
        Writes firmware machine address →
        (0x6f0 ≤ address ∧ address ≤ 0x6f3) ∨
          (0x700 ≤ address ∧ address ≤ 0x700 + 1999) := by
    intro address writes
    cases writes with
    | entry entered lower upper =>
        have inTable := noneLater entered
        rw [buffer_of_entered conforms entered (by omega)] at lower upper
        unfold smapAddress e820EntrySize at lower upper
        unfold e820MaxEntries at inTable
        omega
    | count entered _ lower upper =>
        have ds := (atCall_of_entered conforms entered).ds.trans segment
        have segmentBase : (0 : BitVec 16).toNat = 0 := rfl
        rw [ds, segmentBase] at lower upper
        unfold smapCountAddress at lower upper
        omega
  exact {
    entries := fun _ _ entered _ => noneLater entered
    bytes := bytes
    belowKernel := fun address writes => by
      have := bytes address writes
      unfold kernelLocation
      omega }

/-- A call after 100 replies that go on is given bytes behind the table. -/
theorem ends_of_staysInTable
    (stays : StaysInTable firmware machine) :
    ∃ call < e820MaxEntries,
      (replyAt firmware machine.ebx call).EndsChain := by
  by_contra! goesOn
  obtain ⟨current, entered⟩ := (entered_iff conforms).mpr goesOn
  have buffer := buffer_of_entered conforms entered (le_refl _)
  have behind :=
    stays.bytes _
      (.entry entered (le_refl _) (Nat.lt_add_of_pos_right (by decide)))
  rw [buffer] at behind
  unfold smapAddress e820EntrySize e820MaxEntries at behind
  omega

end Calls

/--
With a conforming firmware, `e820_setup` stores at most 100 entries and writes
only to the count and the table exactly if one of the first 100 replies ends
the chain.
-/
theorem staysInTable_iff
    (firmware : Firmware)
    (machine : Machine)
    (conforms : Conforms firmware)
    (segment : machine.ds = 0) :
    StaysInTable firmware machine ↔
      ∃ call < e820MaxEntries,
        (replyAt firmware machine.ebx call).EndsChain :=
  ⟨ends_of_staysInTable conforms, staysInTable_of_ends conforms segment⟩

/-- A firmware with a given number of entries. -/
def counting (last : Nat) : Firmware :=
  fun call _ =>
    { entry := { baseaddr := 0, length := 0, entryType := e820TypeUsable }
      continuation := if call = last then 0 else 1
      eax := smapSignature
      cx := smapSize
      carry := false }

theorem conforms_counting (last : Nat) : Conforms (counting last) :=
  fun _ _ => ⟨rfl, rfl⟩

/-- A map of 100 entries stays in the table. -/
theorem staysInTable_counting :
    StaysInTable (counting 99) zeroed :=
  (staysInTable_iff (counting 99) zeroed (conforms_counting 99) rfl).mpr
    ⟨99, by decide, .inr (by decide)⟩

/-- A map of 101 entries does not. -/
theorem not_staysInTable_counting :
    Conforms (counting 100) ∧ ¬ StaysInTable (counting 100) zeroed := by
  refine ⟨conforms_counting 100, fun stays => ?_⟩
  obtain ⟨call, early, ended⟩ :=
    ends_of_staysInTable (conforms_counting 100) stays
  have notLast : call ≠ 100 := Nat.ne_of_lt early
  rcases ended with carry | finished
  · exact Bool.false_ne_true carry
  · have one : low (1 : BitVec 32) = 0 := by
      simpa [replyAt, counting, notLast] using finished
    exact absurd one (by decide)

end Relics.E820
