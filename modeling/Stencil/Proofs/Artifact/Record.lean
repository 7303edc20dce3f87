import Stencil.Proofs.Artifact.Carried
import Stencil.Proofs.Artifact.Reading

/-!
# The record of layouts is invisible

A record says which layouts an artifact was made from, and nothing else: when a
text becomes a program, each instruction of the record in front of it is read,
found to name a layout, and dropped.
-/

namespace Stencil.Artifact

open Stencil.Template

theorem ofFragment_usesContent (name : Text) :
    Piece.ofFragment (Fragment.ofContent (usesContent name)) =
      .instruction usesWord (Quoted.quote name) :=
  ofFragment_withArgument (by decide) (by simp [usesWord, Text.isWhite]) (isTrimmed_quote name)

theorem item_uses {name : Text} (h : name ≠ []) :
    (Piece.instruction usesWord (Quoted.quote name)).item = .ok (.uses name) := by
  have hread : Quoted.read? (Quoted.quote name) = some (name, []) := by
    simpa using Quoting.read?_quote name
  exact Piece.item_eq_ok_iff.2 (.uses hread h)

theorem ofText_header (names : List Text) (rest : Text) :
    Piece.ofText (header names ++ rest) =
      names.map (fun name => .instruction usesWord (Quoted.quote name)) ++ Piece.ofText rest := by
  rw [Piece.ofText, ofText_header_append, List.map_append, List.map_map]
  congr 1
  exact List.map_congr_left fun name _ => ofFragment_usesContent name

theorem Builder.addAll_uses (b : Builder) {names : List Text} (h : [] ∉ names)
    (pieces : List Piece) :
    b.addAll (names.map (fun name => .instruction usesWord (Quoted.quote name)) ++ pieces) =
      b.addAll pieces := by
  induction names with
  | nil => rfl
  | cons name names ih =>
      obtain ⟨hname, hnames⟩ := not_or.1 (List.mem_cons.not.1 h)
      rw [List.map_cons, List.cons_append, addAll, item_uses (Ne.symm hname)]
      exact ih hnames

theorem Program.parse_header_append {names : List Text} (h : [] ∉ names) (rest : Text) :
    parse (header names ++ rest) = parse rest := by
  unfold parse ofPieces
  rw [ofText_header, Builder.addAll_uses _ h]

/-- In front of any text, `front` records just the layouts, and the text is read as if it stood
alone: to the same program, or with the same fault. -/
structure Records (front : Text) (layouts : List Text) : Prop where
  dependencies : ∀ rest, dependencies (front ++ rest) = layouts ++ Artifact.dependencies rest
  parse : ∀ rest, Program.parse (front ++ rest) = Program.parse rest

theorem records_header {layouts : List Text} (h : [] ∉ layouts) :
    Records (header layouts) layouts where
  dependencies := dependencies_header_append layouts h
  parse := Program.parse_header_append h

def awkwardNames : List Text :=
  [['\'', '"', '\\'], ['\n'], ['?', '>', '\''], "<?elle uses 'x' ?>".toList]

theorem records_header_awkwardNames :
    [] ∉ awkwardNames ∧ Records (header awkwardNames) awkwardNames :=
  ⟨by decide, records_header (by decide)⟩

end Stencil.Artifact
