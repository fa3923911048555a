/-
# The program

The program reads the file that its options name and, if it has to, its input.
All that it answers is decided by `respond`.
-/
import FieldSelection.Command

open FieldSelection

/-- The text of a file, if there is one. -/
def readFile? (name : Text) : IO (Option Text) := do
  try
    let bytes ← IO.FS.readBinFile (String.ofList name)
    pure (some (Utf8.decodeLenient bytes.toList))
  catch _ => pure none

/-- All bytes of a stream that are left, after those read so far. -/
partial def readAll (stream : IO.FS.Stream) (soFar : ByteArray) : IO ByteArray := do
  let chunk ← stream.read 65536
  if chunk.isEmpty then pure soFar else readAll stream (soFar ++ chunk)

/-- Answers one call. -/
def main (args : List String) : IO UInt32 := do
  let args := args.map String.toList
  let mut file : Option Text := none
  let mut input : List UInt8 := []
  if let .ok c := Command.ofArguments args then
    if let some name := c.options.config then
      file ← readFile? name
    if c.readsInput then
      input := (← readAll (← IO.getStdin) .empty).toList
  let answer := respond { file := fun _ => file, input := input } args
  IO.print (String.ofList answer.output)
  IO.eprint (String.ofList answer.errors)
  pure (UInt32.ofNat answer.code)
