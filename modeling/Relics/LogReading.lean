import Relics.PrintReading
import Relics.PrintTimestamps

/-!
# Reading the log

Every line of the log starts with the time, whose last digit may be any byte.
Even so the printed text tells the time and what stands behind it.
-/

namespace Relics.Print

open PositionalNumeral SelectedWords

section Log

/-- What a call of `log_printk` finds. -/
structure LogCall where
  pitEnabled : Bool
  pitTicks : UInt64
  buf : List UInt8
  size : buf.length = 64

/-- The time that the call prints -/
def LogCall.time (call : LogCall) : List UInt8 :=
  pitIrqTimerGetCurrentTimeSinceBoot call.pitEnabled call.pitTicks call.buf

/-- `print_string` prints no NUL. -/
theorem zero_not_mem_printString (string : List UInt8) :
    0 ∉ printString string := by
  induction string with
  | nil =>
      exact List.not_mem_nil
  | cons char rest inductionHypothesis =>
      rw [printString]
      split
      · exact List.not_mem_nil
      · case _ notNul =>
          rw [List.mem_cons, not_or]
          exact ⟨Ne.symm notNul, inductionHypothesis⟩

/-- `print_string` stops at the NUL in the middle of a string. -/
theorem printString_append
    {text : List UInt8}
    (nonzero : 0 ∉ text)
    (after : List UInt8) :
    printString (text ++ after) = text ++ printString after := by
  induction text with
  | nil =>
      rfl
  | cons char text inductionHypothesis =>
      rw [List.mem_cons, not_or] at nonzero
      rw [List.cons_append, printString, if_neg (Ne.symm nonzero.1),
        inductionHypothesis nonzero.2, List.cons_append]

/--
A time is seconds, a dot, two digits and at most one byte more: the third
digit of whole seconds is whatever the buffer held, and may be a NUL.
-/
structure IsTime (time : List UInt8) : Prop where
  parts :
    ∃ seconds first second third,
      time = seconds ++ 0x2E :: first :: second :: third ∧
        0x2E ∉ seconds ∧ third.length ≤ 1
  noNul : 0 ∉ time

theorem dot_not_mem_decimal (number : Nat) :
    0x2E ∉ decimal.numeral number := by
  intro member
  obtain ⟨digit, below, isDot⟩ :=
    Alphabet.exists_digit_of_mem_numeral member
  have value : (digitChar digit).toNat = _ :=
    toNat_digitChar (Nat.lt_of_lt_of_le below ten_le_sixteen)
  change digitChar digit = 0x2E at isDot
  rw [isDot] at value
  split at value
  · change 46 = _ at value
    omega
  · change 46 = _ at value
    omega

/-- The milliseconds start with two digits. -/
theorem exists_milliseconds
    {num : Nat}
    (below : num < 1000)
    (third : UInt8) :
    ∃ first second last,
      milliseconds num third = [first, second, last] ∧
        first ≠ 0 ∧ second ≠ 0 := by
  by_cases isZero : num = 0
  · subst isZero
    exact ⟨0x30, 0x30, third, rfl, by decide, by decide⟩
  · have noNul := zero_not_mem_milliseconds isZero third
    have length : (milliseconds num third).length = 3 :=
      length_milliseconds below
    obtain ⟨first, second, last, digits⟩ := List.length_eq_three.mp length
    rw [digits, List.mem_cons, List.mem_cons, not_or, not_or] at noNul
    exact
      ⟨first, second, last, digits, Ne.symm noNul.1, Ne.symm noNul.2.1⟩

/-- Every call prints a time. -/
theorem LogCall.isTime (call : LogCall) : IsTime call.time := by
  obtain ⟨pitEnabled, t, buf, size⟩ := call
  cases pitEnabled with
  | false =>
      exact
        { parts :=
            ⟨chars "0", 0x30, 0x30, chars "0", rfl, by decide, by decide⟩
          noNul := by
            change 0 ∉ chars "0.000"
            decide }
  | true =>
      obtain ⟨gap, dot, first, second, third, fourth, after, split, fits, -⟩ :=
        exists_timestamp_parts size t
      have bytes := bytes_millisecondsAsSeconds split fits
      obtain ⟨first', second', last, digits, notNul, notNul'⟩ :=
        exists_milliseconds (toNat_millis_lt t) third
      have time :
          LogCall.time ⟨true, t, buf, size⟩ =
            printString
              ((decimal.numeral (t / 1000).toNat ++ [0x2E, first', second']) ++
                last :: 0 :: after) := by
        change printString _ = _
        rw [bytes, digits]
        simp
      have noNul :
          0 ∉ decimal.numeral (t / 1000).toNat ++ [0x2E, first', second'] := by
        simp [zero_not_mem_decimal, Ne.symm notNul, Ne.symm notNul']
      constructor
      · refine
          ⟨decimal.numeral (t / 1000).toNat, first', second',
            printString (last :: 0 :: after), ?_, dot_not_mem_decimal _, ?_⟩
        · rw [time, printString_append noNul]
          simp
        · rw [printString]
          split
          · exact Nat.zero_le 1
          · exact Nat.le_refl 1
      · rw [time]
        exact zero_not_mem_printString _

/-- Two times in front of the text of a log line are told apart. -/
theorem time_append_inj
    {time time' rest later : List UInt8}
    (isTime : IsTime time)
    (isTime' : IsTime time') :
    time ++ 0x5D :: 0x20 :: rest = time' ++ 0x5D :: 0x20 :: later ↔
      time = time' ∧ rest = later := by
  constructor
  · intro same
    obtain ⟨seconds, first, second, third, rfl, noDot, short⟩ := isTime.parts
    obtain ⟨seconds', first', second', third', rfl, noDot', short'⟩ :=
      isTime'.parts
    simp only [List.append_assoc, List.cons_append] at same
    rw [append_separator_inj noDot noDot', List.cons.injEq,
      List.cons.injEq] at same
    obtain ⟨rfl, rfl, rfl, same⟩ := same
    match third, third', short, short' with
    | [], [], _, _ =>
        simp at same
        exact ⟨rfl, same⟩
    | [byte], [byte'], _, _ =>
        simp at same
        obtain ⟨rfl, rest⟩ := same
        exact ⟨rfl, rest⟩
    | [], [byte], _, _ =>
        simp at same
    | [byte], [], _, _ =>
        simp at same
  · rintro ⟨rfl, rfl⟩
    rfl

/-- Log lines are told apart up to the texts behind their times. -/
theorem logPrintk_append_inj
    {call call' : LogCall}
    {text text' rest later : List UInt8} :
    logPrintk call.time text ++ rest =
        logPrintk call'.time text' ++ later ↔
      call.time = call'.time ∧ text ++ rest = text' ++ later := by
  have printed (call : LogCall) : printString call.time = call.time :=
    printString_of_notMem call.isTime.noNul
  have times :
      call.time ++ 0x5D :: 0x20 :: (text ++ rest) =
          call'.time ++ 0x5D :: 0x20 :: (text' ++ later) ↔
        call.time = call'.time ∧ text ++ rest = text' ++ later :=
    time_append_inj call.isTime call'.isTime
  rw [← times]
  have bracket : chars "] " = [0x5D, 0x20] := by
    decide
  simp [logPrintk, printed, bracket]

end Log

end Relics.Print
