import Columnar.Yaml.TokenStream

/-!
# Readers move forward

Whatever a reader of lexemes does, the text behind it is a later part of the text in front of it.
-/

namespace Columnar.Yaml.Cursor

theorem next_suffix (c : Cursor) : c.next.rest <:+ c.rest := by
  unfold next
  split
  · exact List.suffix_refl _
  · rename_i h
    rw [h]
    exact List.suffix_cons _ _

theorem skip_suffix (n : Nat) (c : Cursor) : (c.skip n).rest <:+ c.rest := by
  induction n generalizing c with
  | zero => exact List.suffix_refl _
  | succ n ih => exact (ih c.next).trans c.next_suffix

theorem skipWhile_suffix (p : Char → Bool) (c : Cursor) : (c.skipWhile p).rest <:+ c.rest :=
  skip_suffix _ c

theorem skipSpaces_suffix (c : Cursor) : c.skipSpaces.rest <:+ c.rest := skip_suffix _ c

theorem skipComment_suffix (c : Cursor) : c.skipComment.rest <:+ c.rest := by
  unfold skipComment
  split
  · exact skip_suffix _ c
  · exact List.suffix_refl _

theorem lineBreak_suffix (c : Cursor) : c.lineBreak.2.rest <:+ c.rest := by
  unfold lineBreak
  dsimp only
  split
  · exact skip_suffix 2 c
  split
  · exact next_suffix c
  split
  · exact next_suffix c
  · exact List.suffix_refl _

theorem lineBreak_suffix_of_eq {c rest : Cursor} {b : Option Char} (h : c.lineBreak = (b, rest)) :
    rest.rest <:+ c.rest := by
  have hsuffix := c.lineBreak_suffix
  rwa [h] at hsuffix

/-! ## Block scalars -/

theorem skipIndent_suffix (indent : Nat) (c : Cursor) : (c.skipIndent indent).rest <:+ c.rest :=
  skip_suffix _ c

theorem emptyLines_suffix (indent fuel : Nat) (c : Cursor) :
    (emptyLines indent fuel c).2.rest <:+ c.rest := by
  induction fuel generalizing c with
  | zero => exact skipIndent_suffix indent c
  | succ fuel ih =>
    have hindent := skipIndent_suffix indent c
    unfold emptyLines
    dsimp only
    split
    · exact hindent
    · rename_i hbreak
      exact (ih _).trans ((lineBreak_suffix_of_eq hbreak).trans hindent)

theorem leadingLines_suffix (fuel : Nat) (c : Cursor) :
    (leadingLines fuel c).2.2.rest <:+ c.rest := by
  induction fuel generalizing c with
  | zero => exact List.suffix_refl _
  | succ fuel ih =>
    have hspaces := c.skipSpaces_suffix
    unfold leadingLines
    dsimp only
    split
    · exact hspaces
    · rename_i hbreak
      exact (ih _).trans ((lineBreak_suffix_of_eq hbreak).trans hspaces)

theorem blockLines_suffix (folded : Bool) (indent fuel : Nat) (empty : List Char) (c : Cursor) :
    (blockLines folded indent fuel empty c).rest.rest <:+ c.rest := by
  induction fuel generalizing empty c with
  | zero => exact List.suffix_refl _
  | succ fuel ih =>
    unfold blockLines
    split
    · have hline : (c.takeWhile fun x => !isBreakOrEnd x).2.rest <:+ c.rest := skip_suffix _ c
      have hbreak := (c.takeWhile fun x => !isBreakOrEnd x).2.lineBreak_suffix
      have hempty := emptyLines_suffix indent
        ((c.takeWhile fun x => !isBreakOrEnd x).2.lineBreak.2.bound)
        (c.takeWhile fun x => !isBreakOrEnd x).2.lineBreak.2
      have hbehind := hempty.trans (hbreak.trans hline)
      dsimp only
      split
      · exact (ih _ _).trans hbehind
      · exact hbehind
    · exact List.suffix_refl _

/-! ## Plain scalars -/

theorem plainBreaks_suffix (fuel : Nat) (c : Cursor) : (plainBreaks fuel c).2.rest <:+ c.rest := by
  induction fuel generalizing c with
  | zero => exact List.suffix_refl _
  | succ fuel ih =>
    have hspaces := c.skipSpaces_suffix
    unfold plainBreaks
    split
    · exact List.suffix_refl _
    · dsimp only
      split
      · exact hspaces
      · rename_i hbreak
        exact (ih _).trans ((lineBreak_suffix_of_eq hbreak).trans hspaces)

theorem plainSpace_suffix (c : Cursor) : c.plainSpace.rest.rest <:+ c.rest := by
  have hspaces := c.skipWhile_suffix (· == ' ')
  unfold plainSpace
  dsimp only [takeWhile]
  split
  · exact hspaces
  · rename_i rest hbreak
    have hrest := (lineBreak_suffix_of_eq hbreak).trans hspaces
    have hbreaks := (plainBreaks_suffix rest.bound rest).trans hrest
    split
    · rename_i h
      rwa [h] at hbreaks
    · rename_i h
      rwa [h] at hbreaks

theorem plainPieces_suffix (inFlow : Bool) (limit fuel : Nat) (s : PlainSpace) :
    (plainPieces inFlow limit fuel s).2.rest.rest <:+ s.rest.rest := by
  induction fuel generalizing s with
  | zero => exact List.suffix_refl _
  | succ fuel ih =>
    unfold plainPieces
    split
    · exact List.suffix_refl _
    · dsimp only
      split
      · exact List.suffix_refl _
      · have hpiece := (plainSpace_suffix _).trans
          (skip_suffix (plainRun inFlow s.rest.rest).length s.rest)
        split
        · exact hpiece
        · exact (ih _).trans hpiece

theorem plainScalar_suffix (inFlow : Bool) (parent : Int) (c : Cursor) :
    (c.plainScalar inFlow parent).2.2.rest <:+ c.rest :=
  plainPieces_suffix inFlow _ c.bound ⟨[], false, c⟩

end Columnar.Yaml.Cursor
