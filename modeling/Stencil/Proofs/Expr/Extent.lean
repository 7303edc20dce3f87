import Stencil.Proofs.Expr.Written
import Stencil.Proofs.Text.Quoted

/-!
# How far a variable goes

The spellings of a variable are a relation between texts and variables, and a
scan finds the variable that the text it takes spells.  What comes next matters
only in so far as a name could go on with it or another accessor start there.
So a scan of as many characters as were taken finds the same variable.
-/

namespace Stencil

open Text (IsBlank IsCut)

def Text.EndsName (rest : Text) : Prop := ∀ c ∈ rest.head?, isIdentPart c = false

open Text (EndsName)

/-! ## Names and positions -/

theorem identifier?_eq_some_iff {t name rest : Text} :
    identifier? t = some (name, rest) ↔
      t = name ++ rest ∧ isIdentifier name = true ∧ EndsName rest := by
  constructor
  · intro h
    refine ⟨eq_of_identifier? h, ?_⟩
    cases t with
    | nil => cases h
    | cons c t =>
        rw [identifier?] at h
        split at h
        · next hc =>
          cases h
          refine ⟨?_, fun d hd => ?_⟩
          · simp [isIdentifier, hc]
          · have hstop := List.head?_dropWhile_not isIdentPart t
            simp_all
        · cases h
  · rintro ⟨rfl, hname, hrest⟩
    exact identifier?_append_of_isIdentifier hname hrest

theorem Text.EndsName.not_isDigit {rest : Text} (h : EndsName rest) :
    ∀ c ∈ rest.head?, c.isDigit = false := by
  intro c hc
  rw [Bool.eq_false_iff]
  intro hdigit
  have hpart := h c hc
  rw [isIdentPart_iff.2 (Or.inl (Or.inr hdigit))] at hpart
  cases hpart

structure IsPosition (digits : Text) (n : Nat) : Prop where
  all_digits : ∀ c ∈ digits, c.isDigit = true
  position : position? digits = some n

namespace IsPosition

variable {digits rest : Text} {n : Nat}

theorem exists_cons (h : IsPosition digits n) : ∃ c t, digits = c :: t ∧ c.isDigit = true := by
  cases digits with
  | nil =>
      have hnone := h.position
      simp [position?] at hnone
  | cons c t => exact ⟨c, t, rfl, h.all_digits c List.mem_cons_self⟩

theorem not_starts (h : IsPosition digits n) (rest : Text) :
    identifier? (digits ++ rest) = none ∧ Quoted.read? (digits ++ rest) = none ∧
      Text.trimStart (digits ++ rest) = digits ++ rest := by
  obtain ⟨c, t, rfl, hc⟩ := h.exists_cons
  have hstart : isIdentStart c ≠ true := by
    intro hstart
    rw [Token.not_isDigit_of_isIdentStart hstart] at hc
    cases hc
  have hquote := Template.Alike.isQuote_of_class (p := Char.isDigit) rfl rfl hc
  refine ⟨?_, ?_, ?_⟩
  · rw [List.cons_append, identifier?, if_neg hstart]
  · rw [List.cons_append, Quoted.read?, hquote]
    rfl
  · exact Text.dropWhile_eq_self (by simpa using not_isWhite_of_isDigit hc)

theorem index_append (h : IsPosition digits n) (hrest : ∀ c ∈ rest.head?, c.isDigit = false) :
    ((position? ((digits ++ rest).takeWhile Char.isDigit)).map fun n =>
      (Accessor.index n, (digits ++ rest).dropWhile Char.isDigit)) = some (.index n, rest) := by
  obtain ⟨htake, hdrop⟩ := Text.span_append_of_head? h.all_digits hrest
  rw [htake, hdrop, h.position, Option.map_some]

end IsPosition

theorem exists_isPosition {t rest : Text} {a : Accessor}
    (h : ((position? (t.takeWhile Char.isDigit)).map fun n =>
      (Accessor.index n, t.dropWhile Char.isDigit)) = some (a, rest)) :
    ∃ digits n, t = digits ++ rest ∧ IsPosition digits n ∧ a = .index n := by
  obtain ⟨n, hn, he⟩ := Option.map_eq_some_iff.1 h
  cases he
  exact ⟨_, n, List.takeWhile_append_dropWhile.symm,
    ⟨fun c hc => List.mem_takeWhile_imp hc, hn⟩, rfl⟩

/-! ## Accessors -/

namespace Accessor

inductive IsKey : Text → Accessor → Prop
  | literal {literal name : Text} (h : Quoted.IsLiteral literal name) : IsKey literal (.key name)
  | digits {digits : Text} {n : Nat} (h : IsPosition digits n) : IsKey digits (.index n)

inductive Spells : Text → Accessor → Prop
  | name {name : Text} (h : isIdentifier name = true) : Spells ('.' :: name) (.key name)
  | digits {digits : Text} {n : Nat} (h : IsPosition digits n) : Spells ('.' :: digits) (.index n)
  | bracketed {lead key tail : Text} {a : Accessor} (hlead : IsBlank lead) (h : IsKey key a)
      (htail : IsBlank tail) : Spells ('[' :: (lead ++ key ++ tail ++ [']'])) a

theorem IsKey.inner? {key rest : Text} {a : Accessor} (h : IsKey key a)
    (hrest : ∀ c ∈ rest.head?, c.isDigit = false) :
    bracketed?.inner? (key ++ rest) = some (a, rest) ∧
      Text.trimStart (key ++ rest) = key ++ rest := by
  cases h with
  | @literal name h =>
      have hread : Quoted.read? (key ++ rest) = some (name, rest) :=
        Quoted.read?_eq_some_iff.2 ⟨key, rfl, h⟩
      refine ⟨by rw [bracketed?.inner?, hread], ?_⟩
      obtain ⟨hq, -⟩ := h
      exact Text.dropWhile_eq_self (by simpa using Quoted.not_isWhite_of_isQuote hq)
  | digits h =>
      obtain ⟨-, hread, htrim⟩ := h.not_starts rest
      refine ⟨?_, htrim⟩
      rw [bracketed?.inner?, hread]
      exact h.index_append hrest

theorem exists_isKey {t rest : Text} {a : Accessor}
    (h : bracketed?.inner? t = some (a, rest)) : ∃ key, t = key ++ rest ∧ IsKey key a := by
  unfold bracketed?.inner? at h
  split at h
  · next name left hread =>
    cases h
    obtain ⟨literal, rfl, hliteral⟩ := Quoted.read?_eq_some_iff.1 hread
    exact ⟨literal, rfl, .literal hliteral⟩
  · obtain ⟨digits, n, rfl, hn, rfl⟩ := exists_isPosition h
    exact ⟨digits, rfl, .digits hn⟩

theorem exists_spells {t rest : Text} {a : Accessor} (h : scan? t = some (a, rest)) :
    ∃ taken, t = taken ++ rest ∧ Spells taken a := by
  unfold scan? at h
  split at h
  · next t =>
    unfold dotted? at h
    split at h
    · next name left hname =>
      cases h
      obtain ⟨rfl, hident, -⟩ := identifier?_eq_some_iff.1 hname
      exact ⟨'.' :: name, rfl, .name hident⟩
    · obtain ⟨digits, n, rfl, hn, rfl⟩ := exists_isPosition h
      exact ⟨'.' :: digits, rfl, .digits hn⟩
  · next t =>
    unfold bracketed? at h
    split at h
    · next b left hinner =>
      obtain ⟨after, hafter, he⟩ := Option.map_eq_some_iff.1 h
      cases he
      obtain ⟨key, hkey, hspelled⟩ := exists_isKey hinner
      obtain ⟨lead, hlead, ht⟩ := Text.exists_eq_trimStart t
      obtain ⟨tail, htail, hleft⟩ := Text.exists_eq_trimStart left
      rw [Text.after?_eq_some_iff.1 hafter] at hleft
      refine ⟨_, ?_, .bracketed hlead hspelled htail⟩
      rw [ht, hkey, hleft]
      simp
    · cases h
  · cases h

theorem Spells.scan? {taken rest : Text} {a : Accessor} (h : Spells taken a)
    (hrest : EndsName rest) : scan? (taken ++ rest) = some (a, rest) := by
  cases h with
  | @name name h =>
      have hname := identifier?_eq_some_iff.2 ⟨rfl, h, hrest⟩
      rw [List.cons_append, Accessor.scan?, dotted?, hname]
  | digits h =>
      rw [List.cons_append, Accessor.scan?, dotted?, (h.not_starts rest).1]
      exact h.index_append hrest.not_isDigit
  | @bracketed lead key tail a hlead h htail =>
      have hstop : ∀ c ∈ (tail ++ ']' :: rest).head?, c.isDigit = false := by
        cases tail with
        | nil => simp
        | cons c tail =>
            have hcut : IsCut (c :: tail) := by simpa [IsCut] using htail c List.mem_cons_self
            simpa using hcut.eq_false_of_head? (fun _ => not_isWhite_of_isDigit)
      obtain ⟨hinner, htrim⟩ := h.inner? hstop
      have hclose : Text.trimStart (tail ++ ']' :: rest) = ']' :: rest :=
        Text.trimStart_of_isBlank_append htail
      have htext : lead ++ key ++ tail ++ [']'] ++ rest =
          lead ++ (key ++ (tail ++ ']' :: rest)) := by simp
      rw [List.cons_append, Accessor.scan?, bracketed?, htext,
        Text.trimStart_of_isBlank_append hlead, htrim, hinner]
      dsimp only
      rw [hclose]
      rfl

inductive AreSpelled : Text → List Accessor → Prop
  | nil : AreSpelled [] []
  | cons {taken more : Text} {a : Accessor} {as : List Accessor} (h : Spells taken a)
      (hmore : AreSpelled more as) : AreSpelled (taken ++ more) (a :: as)

theorem Spells.endsName {taken : Text} {a : Accessor} (h : Spells taken a) (rest : Text) :
    EndsName (taken ++ rest) := by
  cases h <;> intro c hc <;> cases hc <;> rfl

theorem AreSpelled.endsName {taken rest : Text} {as : List Accessor} (h : AreSpelled taken as)
    (hrest : EndsName rest) : EndsName (taken ++ rest) := by
  cases h with
  | nil => exact hrest
  | cons h hmore =>
      rw [List.append_assoc]
      exact h.endsName _

theorem AreSpelled.scanAll {taken rest : Text} {as : List Accessor} (h : AreSpelled taken as)
    (hrest : EndsName rest) (hstop : scan? rest = none) :
    scanAll (taken ++ rest) = (as, rest) := by
  induction h with
  | nil => exact scanAll_of_scan?_eq_none hstop
  | cons h hmore ih =>
      rw [List.append_assoc, scanAll_of_scan? (h.scan? (hmore.endsName hrest)), ih]

theorem exists_areSpelled (t : Text) :
    scan? (scanAll t).2 = none ∧
      ∃ taken, t = taken ++ (scanAll t).2 ∧ AreSpelled taken (scanAll t).1 := by
  fun_induction scanAll t with
  | case1 t h => exact ⟨h, [], rfl, .nil⟩
  | case2 t a rest h _ more left hrest ih =>
      rw [hrest] at ih
      obtain ⟨hstop, later, hlater, hmore⟩ := ih
      obtain ⟨taken, rfl, hspells⟩ := exists_spells h
      exact ⟨hstop, taken ++ later, by rw [List.append_assoc, ← hlater], .cons hspells hmore⟩

end Accessor

/-! ## Variables -/

namespace Variable

inductive Spells : Text → Variable → Prop
  | root {root accessors : Text} {as : List Accessor} (h : isIdentifier root = true)
      (has : Accessor.AreSpelled accessors as) : Spells ('$' :: (root ++ accessors)) ⟨root, as⟩

theorem exists_spells {t rest : Text} {v : Variable} (h : scan? t = some (v, rest)) :
    Accessor.scan? rest = none ∧ ∃ taken, t = taken ++ rest ∧ Spells taken v := by
  unfold scan? at h
  split at h
  · next t =>
    obtain ⟨⟨root, left⟩, hroot, he⟩ := Option.map_eq_some_iff.1 h
    cases he
    obtain ⟨rfl, hident, -⟩ := identifier?_eq_some_iff.1 hroot
    obtain ⟨hstop, accessors, hleft, hspelled⟩ := Accessor.exists_areSpelled left
    refine ⟨hstop, '$' :: (root ++ accessors), ?_, .root hident hspelled⟩
    rw [List.cons_append, List.append_assoc, ← hleft]
  · cases h

theorem Spells.scan? {taken rest : Text} {v : Variable} (h : Spells taken v)
    (hrest : EndsName rest) (hstop : Accessor.scan? rest = none) :
    scan? (taken ++ rest) = some (v, rest) := by
  cases h with
  | @root root accessors as h has =>
      have hroot : identifier? (root ++ accessors ++ rest) = some (root, accessors ++ rest) := by
        rw [List.append_assoc]
        exact identifier?_eq_some_iff.2 ⟨rfl, h, has.endsName hrest⟩
      rw [List.cons_append, Variable.scan?, hroot, Option.map_some]
      dsimp only
      rw [has.scanAll hrest hstop]

theorem Spells.measure? {taken rest : Text} {v : Variable} (h : Spells taken v)
    (hrest : EndsName rest) (hstop : Accessor.scan? rest = none) :
    Text.measure? Variable.scan? (taken ++ rest) = some (v, Text.utf8Length taken) :=
  Text.measure?_append (h.scan? hrest hstop)

theorem accessor_scan?_cons_eq_none {c : Char} (hdot : c ≠ '.') (hbracket : c ≠ '[') (rest : Text) :
    Accessor.scan? (c :: rest) = none := by
  simp [Accessor.scan?, hdot, hbracket]

/-- What was taken of a text spells the variable and is scanned by itself, also in front of a
character that goes on with neither a name nor an accessor.  What was left starts no accessor. -/
structure IsSelfContained (t : Text) (v : Variable) (n : Nat) : Prop where
  spells : Spells (Text.takeBytes n t) v
  stops : ∀ rest, t = Text.takeBytes n t ++ rest → Accessor.scan? rest = none
  alone : Text.measure? scan? (Text.takeBytes n t) = some (v, n)
  followed : ∀ c rest, isIdentPart c = false → c ≠ '.' → c ≠ '[' →
    Text.measure? scan? (Text.takeBytes n t ++ c :: rest) = some (v, n)

theorem isSelfContained_of_measure? {t : Text} {v : Variable} {n : Nat}
    (h : Text.measure? scan? t = some (v, n)) : IsSelfContained t v n := by
  have hsuffix : ∀ w rest, scan? t = some (w, rest) → rest <:+ t := by
    intro w rest hw
    obtain ⟨-, taken, rfl, -⟩ := exists_spells hw
    exact List.suffix_append taken rest
  obtain ⟨taken, rest, rfl, rfl, hscan⟩ := Text.exists_of_measure? hsuffix h
  obtain ⟨hstop, taken', htaken, hspells⟩ := exists_spells hscan
  obtain rfl := List.append_cancel_right htaken
  have htake := Text.takeBytes_append taken rest
  constructor
  · rwa [htake]
  · intro left hleft
    rw [htake] at hleft
    rwa [← List.append_cancel_left hleft]
  · have halone : Text.measure? scan? (taken ++ []) = some (v, Text.utf8Length taken) :=
      hspells.measure? (by simp [EndsName]) rfl
    rw [htake]
    rwa [List.append_nil] at halone
  · intro c after hpart hdot hbracket
    rw [htake]
    exact hspells.measure? (by simpa [EndsName] using hpart)
      (accessor_scan?_cons_eq_none hdot hbracket after)

theorem measure?_write {v : Variable} (h : v.isWritable = true) :
    Text.measure? scan? v.write = some (v, Text.utf8Length v.write) := by
  have hscan : scan? (v.write ++ []) = some (v, []) := scan?_write_append h (by simp) rfl
  have hmeasure := Text.measure?_append hscan
  rwa [List.append_nil] at hmeasure

/-- A scan needs no more than the text that it takes, and takes a written variable as a whole. -/
theorem scansOwnText :
    (∀ t v n, Text.measure? scan? t = some (v, n) → IsSelfContained t v n) ∧
      ∀ v : Variable, v.isWritable = true →
        Text.measure? scan? v.write = some (v, Text.utf8Length v.write) :=
  ⟨fun _ _ _ => isSelfContained_of_measure?, fun _ => measure?_write⟩

def crowded : Variable :=
  ⟨"_r".toList, [.key "it's é".toList, .index 7, .key "b".toList, .index 18446744073709551615]⟩

/-- The last number is too long for a position, so the scan stops in front of its dot. -/
theorem scansOwnText_crowded :
    Text.measure? scan?
        "$_r['it\\'s é'][ 7\t].b.18446744073709551615.18446744073709551616".toList =
      some (crowded, 43) ∧
    IsSelfContained
      "$_r['it\\'s é'][ 7\t].b.18446744073709551615.18446744073709551616".toList crowded 43 ∧
    crowded.isWritable = true ∧
    crowded.write = "$_r['it\\'s é'][7]['b'][18446744073709551615]".toList ∧
    Text.measure? scan? crowded.write = some (crowded, Text.utf8Length crowded.write) := by
  have hscan : Text.measure? scan?
      "$_r['it\\'s é'][ 7\t].b.18446744073709551615.18446744073709551616".toList =
        some (crowded, 43) := by decide +kernel
  have hwritable : crowded.isWritable = true := by decide
  exact ⟨hscan, scansOwnText.1 _ _ _ hscan, hwritable, by decide +kernel,
    scansOwnText.2 crowded hwritable⟩

end Variable

end Stencil
