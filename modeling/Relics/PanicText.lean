import Relics.PrintPieces

namespace Relics.Panic

/-!
# The text of a panic

`panic` prints its message with the number and the kind of the issue and then
keeps the processor halted.
-/

open Print

/-- The `issue` of `panic2` -/
def issue (i : Int32) : List UInt8 :=
  if i = 0 then chars "processor-related"
  else if i = 1 then chars "memory-related"
  else if i = 2 then chars "graphics-related"
  else if i = 3 then chars "storage-related"
  else chars "generic"

/-- `ERR_MSG_DEFAULT` -/
def errMsgDefault : List UInt8 :=
  chars
    "An unrecoverable error has occurred.\nThe system will now go into an infinite loop.\nPlease restart the system through hardware."

/-- What `panic2` prints before it loops around `cli; hlt` -/
def panic2 (leftOver : List UInt8) (i : Int32) (errmsg : List UInt8) :
    List UInt8 :=
  printString errmsg ++ chars "\n" ++
    (chars "Error code: " ++ (printInt leftOver i).getD [] ++ chars " (" ++
      printString (issue i) ++ chars ")\n")

/-- `panic` -/
def panic (leftOver : List UInt8) (i : Int32) : List UInt8 :=
  panic2 leftOver i errMsgDefault

/-- It is what `printk` prints for the formats of `panic2`. -/
theorem prints_panic2
    (leftOver : List UInt8)
    (i : Int32)
    (errmsg : List UInt8) :
    Prints leftOver (chars "%s\n" ++ chars "Error code: %d (%s)\n")
      [⟨.string, errmsg⟩, ⟨.int, i⟩, ⟨.string, issue i⟩]
      (panic2 leftOver i errmsg) [] := by
  refine
    prints_of_pieces
      [.conversion false .s errmsg,
        .literal ⟨chars "\n", by decide, by decide⟩,
        .literal ⟨chars "Error code: ", by decide, by decide⟩,
        .conversion false .d i,
        .literal ⟨chars " (", by decide, by decide⟩,
        .conversion false .s (issue i),
        .literal ⟨chars ")\n", by decide, by decide⟩] rfl rfl ?_ ?_
  · simp [Argument.Exact, Argument.signed]
  · simp [emitAll, Piece.emit, Specifier.emit, Specifier.number,
      Specifier.plain, panic2]

end Relics.Panic
