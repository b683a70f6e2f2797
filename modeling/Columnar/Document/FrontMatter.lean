import Columnar.Document.Segments

/-!
# Front matter

A text may open with a block of its own, set off from the body. The block opens with a separator on
the very first line and closes with the next separator or `...` line. A text without such a block
is all body and stays as it is; otherwise its line breaks are unified.
-/

namespace Columnar.Document

open Text

/-- The block at the head of a text, empty if there is none, and the body behind it. -/
structure FrontMatter where
  block : List Char
  body : List Char
deriving DecidableEq, Repr

def isCloser (line : List Char) : Bool :=
  trimRight line == separator || trimRight line == ['.', '.', '.']

/-- The lines before the first closer, and those behind it. -/
def spanCloser (ls : List (List Char)) : Option (List (List Char) × List (List Char)) :=
  match ls.dropWhile fun l => !isCloser l with
  | [] => none
  | _ :: body => some (ls.takeWhile fun l => !isCloser l, body)

def FrontMatter.ofText (cs : List Char) : FrontMatter :=
  match lines (unifyBreaks '\r' '\n' cs) with
  | [] => ⟨[], cs⟩
  | first :: rest =>
    if isSeparator first then
      match spanCloser rest with
      | some (block, body) => ⟨unlines block, unlines body⟩
      | none => ⟨[], cs⟩
    else ⟨[], cs⟩

end Columnar.Document
