import Stencil.Proofs.Template.Arguments
import Stencil.Proofs.Template.Instruction

/-!
# What is recognised

Every recogniser is stated as an equivalence: it finds a fragment at the start
of a text just if the text starts with one of a given form.  A fragment that is
found is then found again in front of any other text.
-/

namespace Stencil.Template.Fragment

open Quoting

/-! ## Instructions, comments and echoes -/

theorem instruction?_eq_some_iff {t rest : Text} {f : Fragment} :
    instruction? t = some (f, rest) ↔ ∃ c body, Text.isWhite c = true ∧
      (Closer.ofMark instructionClose).Ends 0 .outside (c :: body) ∧
      f = ⟨.instruction (c :: body), instructionOpen ++ (c :: body) ++ instructionClose⟩ ∧
      t = f.raw ++ rest := by
  constructor
  · intro h
    unfold instruction? at h
    split at h
    · next c u hu =>
      split at h
      · next hc =>
        obtain ⟨⟨body, r⟩, hs, he⟩ := Option.map_eq_some_iff.1 h
        cases he
        obtain ⟨hbody, hends⟩ := (Closer.splitUnquoted?_eq_some_iff sharp_instructionClose).1 hs
        cases body with
        | nil =>
            simp only [List.nil_append, instructionClose, List.cons_append,
              List.cons.injEq] at hbody
            rw [hbody.1] at hc
            cases hc
        | cons d body =>
            obtain rfl : c = d := (List.cons.inj hbody).1
            refine ⟨c, body, hc, hends, rfl, ?_⟩
            rw [Text.after?_eq_some_iff.1 hu, hbody]
            simp
      · cases h
    · cases h
  · rintro ⟨c, body, hc, hends, rfl, rfl⟩
    have hsplit : splitUnquoted? instructionClose none (c :: body ++ (instructionClose ++ rest)) =
        some (c :: body, rest) :=
      (Closer.splitUnquoted?_eq_some_iff sharp_instructionClose).2 ⟨rfl, hends⟩
    have hafter : Text.after? instructionOpen
        (instructionOpen ++ (c :: body) ++ instructionClose ++ rest) =
          some (c :: (body ++ (instructionClose ++ rest))) := by
      rw [Text.after?_eq_some_iff]
      simp
    rw [List.cons_append] at hsplit
    unfold instruction?
    rw [hafter]
    simp only [hc, if_true, hsplit]
    rfl

theorem echo?_eq_some_iff {t rest : Text} {f : Fragment} :
    echo? t = some (f, rest) ↔ ∃ argument d, Directive.echo? argument = some d ∧
      (Closer.ofMark echoClose).Ends 0 .outside argument ∧
      f = ⟨.directive d, echoOpen ++ argument ++ echoClose⟩ ∧ t = f.raw ++ rest := by
  constructor
  · intro h
    unfold echo? at h
    split at h
    · next u hu =>
      split at h
      · next argument r hs =>
        obtain ⟨d, hd, he⟩ := Option.map_eq_some_iff.1 h
        cases he
        obtain ⟨hargument, hends⟩ := (Closer.splitUnquoted?_eq_some_iff sharp_echoClose).1 hs
        refine ⟨argument, d, hd, hends, rfl, ?_⟩
        rw [Text.after?_eq_some_iff.1 hu, hargument]
        simp
      · cases h
    · cases h
  · rintro ⟨argument, d, hd, hends, rfl, rfl⟩
    have hsplit : splitUnquoted? echoClose none (argument ++ (echoClose ++ rest)) =
        some (argument, rest) :=
      (Closer.splitUnquoted?_eq_some_iff sharp_echoClose).2 ⟨rfl, hends⟩
    have hafter : Text.after? echoOpen (echoOpen ++ argument ++ echoClose ++ rest) =
        some (argument ++ (echoClose ++ rest)) := by
      rw [Text.after?_eq_some_iff]
      simp
    unfold echo?
    rw [hafter]
    simp only [hsplit, hd]
    rfl

theorem after?_eq_none_iff {mark t : Text} : Text.after? mark t = none ↔ ¬ mark <+: t := by
  rw [Option.eq_none_iff_forall_ne_some]
  constructor
  · rintro h ⟨rest, rfl⟩
    exact h rest (Text.after?_append mark rest)
  · exact fun h rest hrest => h ⟨rest, (Text.after?_eq_some_iff.1 hrest).symm⟩

theorem splitAt?_isSome_iff {mark t : Text} (hm : mark ≠ []) :
    (Text.splitAt? mark t).isSome ↔ mark <:+: t := by
  induction t with
  | nil =>
      obtain ⟨c, rest, rfl⟩ := List.exists_cons_of_ne_nil hm
      simp [Text.splitAt?, Text.after?]
  | cons c t ih =>
      rw [List.infix_cons_iff, ← ih, Text.splitAt?]
      cases ha : Text.after? mark (c :: t) with
      | some rest =>
          have hstart : mark <+: c :: t := ⟨rest, (Text.after?_eq_some_iff.1 ha).symm⟩
          simp [hstart]
      | none => simp [after?_eq_none_iff.1 ha]

theorem prefix_append_append_iff {mark front : Text} (hfront : front ≠ []) (rest : Text) :
    mark <+: front ++ mark ++ rest ↔ mark <+: front ++ mark.dropLast := by
  have hlead : front ++ mark.dropLast <+: front ++ mark ++ rest := by
    rw [List.append_assoc, List.prefix_append_right_inj]
    exact (List.dropLast_prefix mark).trans (List.prefix_append ..)
  have hlength : mark.length ≤ (front ++ mark.dropLast).length := by
    have hpos := List.length_pos_iff.2 hfront
    rw [List.length_append, List.length_dropLast]
    omega
  constructor
  · exact fun h => List.prefix_of_prefix_length_le h hlead hlength
  · exact fun h => h.trans hlead

theorem splitAt?_eq_some_iff {mark t before rest : Text} (hm : mark ≠ []) :
    Text.splitAt? mark t = some (before, rest) ↔
      t = before ++ mark ++ rest ∧ ¬ mark <:+: before ++ mark.dropLast := by
  induction before generalizing t with
  | nil =>
      have hshort : ¬ mark <:+: [] ++ mark.dropLast := by
        have hpos := List.length_pos_iff.2 hm
        intro h
        have hlength := h.length_le
        rw [List.nil_append, List.length_dropLast] at hlength
        omega
      constructor
      · exact fun h => ⟨Text.eq_of_splitAt? h, hshort⟩
      · rintro ⟨rfl, -⟩
        obtain ⟨c, tail, rfl⟩ := List.exists_cons_of_ne_nil hm
        rw [List.nil_append, List.cons_append, Text.splitAt?, ← List.cons_append,
          Text.after?_append]
  | cons c before ih =>
      have hstart : Text.after? mark (c :: before ++ mark ++ rest) = none ↔
          ¬ mark <+: c :: before ++ mark.dropLast := by
        rw [after?_eq_none_iff, prefix_append_append_iff (List.cons_ne_nil _ _)]
      simp only [List.cons_append] at hstart ⊢
      rw [List.infix_cons_iff, not_or, ← hstart]
      constructor
      · intro h
        obtain rfl := Text.eq_of_splitAt? h
        simp only [List.cons_append, Text.splitAt?] at h
        split at h
        · cases h
        · next hnone =>
          obtain ⟨⟨front, last⟩, hsplit, he⟩ := Option.map_eq_some_iff.1 h
          cases he
          exact ⟨rfl, hnone, (ih.1 hsplit).2⟩
      · rintro ⟨rfl, hnone, hfirst⟩
        rw [Text.splitAt?, hnone, ih.2 ⟨rfl, hfirst⟩]
        rfl

theorem comment?_eq_some_iff {t rest : Text} {f : Fragment} :
    comment? t = some (f, rest) ↔ ∃ body,
      ¬ commentClose <:+: body ++ commentClose.dropLast ∧
      f = ⟨.comment, commentOpen ++ body ++ commentClose⟩ ∧ t = f.raw ++ rest := by
  have hm : commentClose ≠ [] := by simp [commentClose]
  constructor
  · intro h
    have ht := eq_of_comment? h
    unfold comment? at h
    split at h
    · next u hu =>
      obtain ⟨⟨body, r⟩, hs, he⟩ := Option.map_eq_some_iff.1 h
      cases he
      exact ⟨body, ((splitAt?_eq_some_iff hm).1 hs).2, rfl, ht⟩
    · cases h
  · rintro ⟨body, hfirst, rfl, rfl⟩
    have hsplit : Text.splitAt? commentClose (body ++ (commentClose ++ rest)) =
        some (body, rest) :=
      (splitAt?_eq_some_iff hm).2 ⟨by simp, hfirst⟩
    have hafter : Text.after? commentOpen (commentOpen ++ body ++ commentClose ++ rest) =
        some (body ++ (commentClose ++ rest)) := by
      rw [Text.after?_eq_some_iff]
      simp
    unfold comment?
    rw [hafter]
    simp only [hsplit]
    rfl

theorem comment?_isSome_iff {t : Text} :
    (comment? t).isSome ↔ ∃ u, t = commentOpen ++ u ∧ commentClose <:+: u := by
  have hm : commentClose ≠ [] := by simp [commentClose]
  unfold comment?
  cases ha : Text.after? commentOpen t with
  | none =>
      constructor
      · intro h
        cases h
      · rintro ⟨u, rfl, -⟩
        rw [Text.after?_append] at ha
        cases ha
  | some u =>
      rw [Text.after?_eq_some_iff] at ha
      subst ha
      rw [Option.isSome_map, splitAt?_isSome_iff hm]
      constructor
      · intro h
        exact ⟨u, rfl, h⟩
      · rintro ⟨v, hv, h⟩
        rwa [List.append_cancel_left hv]

theorem eq_comment_of_comment? {t rest : Text} {f : Fragment} (h : comment? t = some (f, rest)) :
    ∃ body, f = ⟨.comment, commentOpen ++ body ++ commentClose⟩ := by
  obtain ⟨body, -, hf, -⟩ := comment?_eq_some_iff.1 h
  exact ⟨body, hf⟩

/-! ## Keywords -/

theorem isAlpha_of_spelling (k : Keyword) : ∀ c ∈ k.spelling, c.isAlpha = true := by
  cases k <;> simp [Keyword.spelling]

theorem not_isAlpha_of_isIdentPart {c : Char} (h : isIdentPart c = false) : c.isAlpha = false := by
  cases ha : c.isAlpha with
  | false => rfl
  | true => simp [isIdentPart, Char.isAlphanum, ha] at h

theorem word?_eq_some_iff {t word rest : Text} :
    word? t = some (word, rest) ↔ t = word ++ rest ∧ (∀ c ∈ word, c.isAlpha = true) ∧
      rest.head?.any isIdentPart = false := by
  constructor
  · intro h
    unfold word? at h
    split at h
    · cases h
    · next hrest =>
      cases h
      rw [Bool.not_eq_true] at hrest
      exact ⟨List.takeWhile_append_dropWhile.symm, fun c hc => List.mem_takeWhile_imp hc, hrest⟩
  · rintro ⟨rfl, hword, hrest⟩
    have hstop : rest.takeWhile Char.isAlpha = [] ∧ rest.dropWhile Char.isAlpha = rest := by
      cases rest with
      | nil => exact ⟨rfl, rfl⟩
      | cons c rest =>
          have hc := not_isAlpha_of_isIdentPart (c := c) (by simpa using hrest)
          simp [hc]
    have hdrop : (word ++ rest).dropWhile Char.isAlpha = rest := by
      rw [List.dropWhile_append_of_pos hword, hstop.2]
    have htake : (word ++ rest).takeWhile Char.isAlpha = word := by
      rw [List.takeWhile_append_of_pos hword, hstop.1, List.append_nil]
    unfold word?
    rw [hdrop, htake, hrest]
    rfl

inductive IsCall : Fragment → Text → Prop
  | closed {k : Keyword} {gap arguments rest : Text} {d : Directive}
      (hk : k.takesArguments = true) (hgap : ∀ c ∈ gap, isGap c = true)
      (hd : k.directive? arguments = some d) (hends : Closer.paren.Ends 0 .outside arguments) :
      IsCall ⟨.directive d, '@' :: k.spelling ++ gap ++ '(' :: arguments ++ [')']⟩ rest
  | bare {k : Keyword} {rest : Text} {d : Directive} (hk : k.takesArguments = false)
      (hd : k.directive? [] = some d) (hrest : rest.head?.any isIdentPart = false) :
      IsCall ⟨.directive d, '@' :: k.spelling⟩ rest

theorem not_isIdentPart_of_gap {gap t : Text} (hgap : ∀ c ∈ gap, isGap c = true) :
    (gap ++ '(' :: t).head?.any isIdentPart = false := by
  cases gap with
  | nil => rfl
  | cons c gap =>
      have hc := hgap c List.mem_cons_self
      simp only [isGap, Bool.or_eq_true, beq_iff_eq] at hc
      rcases hc with rfl | rfl <;> rfl

theorem isCall_of_keyword? {t rest : Text} {f : Fragment} (h : keyword? t = some (f, rest)) :
    IsCall f rest := by
  unfold keyword? at h
  split at h
  · cases h
  · next word r hw =>
    split at h
    · cases h
    · next k hk =>
      obtain rfl := Keyword.spelling_of_ofWord? hk
      split at h
      · next htakes =>
        split at h
        · next u hu =>
          split at h
          · next arguments after hs =>
            obtain ⟨d, hd, he⟩ := Option.map_eq_some_iff.1 h
            cases he
            exact .closed htakes (fun c hc => List.mem_takeWhile_imp hc) hd
              (Closer.splitParen?_eq_some_iff.1 hs).2
          · cases h
        · cases h
      · next htakes =>
        obtain ⟨d, hd, he⟩ := Option.map_eq_some_iff.1 h
        cases he
        rw [Bool.not_eq_true] at htakes
        exact .bare htakes hd (word?_eq_some_iff.1 hw).2.2

theorem keyword?_eq_some_iff {t rest : Text} {f : Fragment} :
    keyword? t = some (f, rest) ↔ IsCall f rest ∧ '@' :: t = f.raw ++ rest := by
  constructor
  · intro h
    exact ⟨isCall_of_keyword? h, eq_of_keyword? h⟩
  · rintro ⟨h, ht⟩
    cases h with
    | @closed k gap arguments _ d hk hgap hd hends =>
        simp only [List.cons_append, List.append_assoc, List.nil_append, List.cons.injEq,
          true_and] at ht
        have hword : word? t = some (k.spelling, gap ++ '(' :: (arguments ++ ')' :: rest)) :=
          word?_eq_some_iff.2 ⟨ht, isAlpha_of_spelling k, not_isIdentPart_of_gap hgap⟩
        have hdrop : (gap ++ '(' :: (arguments ++ ')' :: rest)).dropWhile isGap =
            '(' :: (arguments ++ ')' :: rest) := by
          rw [List.dropWhile_append_of_pos hgap]
          rfl
        have htake : (gap ++ '(' :: (arguments ++ ')' :: rest)).takeWhile isGap = gap := by
          rw [List.takeWhile_append_of_pos hgap]
          simp [isGap]
        have hsplit : splitParen? 0 none (arguments ++ ')' :: rest) = some (arguments, rest) :=
          Closer.splitParen?_eq_some_iff.2 ⟨rfl, hends⟩
        unfold keyword?
        simp only [hword, Keyword.ofWord?_spelling, hk, if_true, hdrop, htake, hsplit, hd]
        rfl
    | @bare k _ d hk hd hrest =>
        simp only [List.cons_append, List.cons.injEq, true_and] at ht
        have hword : word? t = some (k.spelling, rest) :=
          word?_eq_some_iff.2 ⟨ht, isAlpha_of_spelling k, hrest⟩
        unfold keyword?
        simp only [hword, Keyword.ofWord?_spelling, hk, hd]
        rfl

theorem IsCall.mono {f : Fragment} {rest rest' : Text} (h : IsCall f rest)
    (hhead : rest.head?.any isIdentPart = false → rest'.head?.any isIdentPart = false) :
    IsCall f rest' := by
  cases h with
  | closed hk hgap hd hends => exact .closed hk hgap hd hends
  | bare hk hd hrest => exact .bare hk hd (hhead hrest)

/-! ## Fragments -/

theorem recognise?_brace (t : Text) :
    recognise? ('{' :: t) =
      match comment? ('{' :: t) with
      | some comment => some comment
      | none => echo? ('{' :: t) := rfl

theorem recognise?_brace_eq_some_iff {t rest : Text} {f : Fragment} :
    recognise? ('{' :: t) = some (f, rest) ↔ comment? ('{' :: t) = some (f, rest) ∨
      comment? ('{' :: t) = none ∧ echo? ('{' :: t) = some (f, rest) := by
  rw [recognise?_brace]
  cases comment? ('{' :: t) <;> simp

theorem recognise?_of_ne {c : Char} (hless : c ≠ '<') (hbrace : c ≠ '{') (hat : c ≠ '@')
    (t : Text) :
    recognise? (c :: t) = none := by
  unfold recognise?
  split
  · next h => exact absurd (List.cons.inj h).1 hless
  · next h => exact absurd (List.cons.inj h).1 hbrace
  · next h => exact absurd (List.cons.inj h).1 hat
  · rfl

inductive IsFound : Fragment → Prop
  | instruction {c : Char} {body : Text} (hc : Text.isWhite c = true)
      (hends : (Closer.ofMark instructionClose).Ends 0 .outside (c :: body)) :
      IsFound ⟨.instruction (c :: body), instructionOpen ++ (c :: body) ++ instructionClose⟩
  | comment (body : Text) : IsFound ⟨.comment, commentOpen ++ body ++ commentClose⟩
  | echo {argument : Text} {d : Directive} (hd : Directive.echo? argument = some d)
      (hends : (Closer.ofMark echoClose).Ends 0 .outside argument) :
      IsFound ⟨.directive d, echoOpen ++ argument ++ echoClose⟩
  | call {f : Fragment} {rest : Text} (h : IsCall f rest) : IsFound f

theorem isFound_of_recognise? {t rest : Text} {f : Fragment}
    (h : recognise? t = some (f, rest)) : f.IsFound := by
  unfold recognise? at h
  split at h
  · obtain ⟨c, body, hc, hends, rfl, -⟩ := instruction?_eq_some_iff.1 h
    exact .instruction hc hends
  · split at h
    · next comment hcomment =>
      cases h
      obtain ⟨body, rfl⟩ := eq_comment_of_comment? hcomment
      exact .comment body
    · obtain ⟨argument, d, hd, hends, rfl, -⟩ := echo?_eq_some_iff.1 h
      exact .echo hd hends
  · exact .call (keyword?_eq_some_iff.1 h).1
  · cases h

theorem kind_eq_text_or_mem_of_mem_consChar {c : Char} {fragments : List Fragment} {f : Fragment}
    (h : f ∈ consChar c fragments) : f.kind = .text ∨ f ∈ fragments := by
  unfold consChar at h
  split at h
  · rcases List.mem_cons.1 h with rfl | hmore
    · exact Or.inl rfl
    · exact Or.inr (List.mem_cons_of_mem _ hmore)
  · rcases List.mem_cons.1 h with rfl | hmore
    · exact Or.inl rfl
    · exact Or.inr hmore

theorem isFound_of_mem {t : Text} {f : Fragment} (h : f ∈ ofText t) :
    f.kind = .text ∨ f.IsFound := by
  fun_induction ofText t with
  | case1 => cases h
  | case2 c t g rest hg _ ih =>
      rcases List.mem_cons.1 h with rfl | hrest
      · exact Or.inr (isFound_of_recognise? hg)
      · exact ih hrest
  | case3 c t _ ih =>
      rcases kind_eq_text_or_mem_of_mem_consChar h with htext | hmem
      · exact Or.inl htext
      · exact ih hmem

def isKept (f : Fragment) : Bool :=
  match f.kind with
  | .text | .instruction _ => true
  | .comment => false
  | .directive d => d.isInheritance

theorem compiled_of_isKept {f : Fragment} (h : f.isKept = true) : f.compiled = f.raw := by
  obtain ⟨kind, raw⟩ := f
  cases kind with
  | text => rfl
  | instruction body => rfl
  | comment => cases h
  | directive d =>
      have hnone : d.content? = none := by
        rw [← Option.isNone_iff_eq_none, Directive.content?_isNone]
        exact h
      simp only [compiled, hnone]

theorem recognise?_of_isCall {f : Fragment} {rest rest' rest'' : Text} (hcall : IsCall f rest'')
    (h : recognise? (f.raw ++ rest) = some (f, rest))
    (hhead : rest.head?.any isIdentPart = false → rest'.head?.any isIdentPart = false) :
    recognise? (f.raw ++ rest') = some (f, rest') := by
  have hat : ∃ t, f.raw = '@' :: t := by
    cases hcall with
    | closed => exact ⟨_, rfl⟩
    | bare => exact ⟨_, rfl⟩
  obtain ⟨t, ht⟩ := hat
  rw [ht] at h ⊢
  have hcall := (keyword?_eq_some_iff.1 h).1.mono hhead
  exact keyword?_eq_some_iff.2 ⟨hcall, by rw [ht]; rfl⟩

theorem recognise?_of_isKept {f : Fragment} {rest rest' : Text}
    (h : recognise? (f.raw ++ rest) = some (f, rest)) (hk : f.isKept = true)
    (hhead : rest.head?.any isIdentPart = false → rest'.head?.any isIdentPart = false) :
    recognise? (f.raw ++ rest') = some (f, rest') := by
  cases isFound_of_recognise? h with
  | @instruction c body hc hends =>
      exact instruction?_eq_some_iff.2 ⟨c, body, hc, hends, rfl, rfl⟩
  | comment body => cases hk
  | echo hd hends =>
      rw [(Directive.echo?_eq_some_iff.1 hd).1] at hk
      cases hk
  | call hcall => exact recognise?_of_isCall hcall h hhead

end Stencil.Template.Fragment
