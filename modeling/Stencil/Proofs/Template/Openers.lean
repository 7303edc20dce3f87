import Stencil.Proofs.Template.Simulation

/-!
# Openers that open nothing

Text that looks like the start of a directive, and is none in a source, is none
in the compiled text either.  To be one it would have to take the place of an
instruction into its argument, whose mark no argument can have.
-/

namespace Stencil.Template

open Quoting

theorem Quoting.outline_outside_cons {c : Char} (hc : Quoted.isQuote c = false) (t : Text) :
    outside.outline (c :: t) = c :: outside.outline t := by
  simp [outline_cons, shown, next, hc]

namespace Closer

/-! ## Marks of instructions in an argument -/

def IsApart (k : Closer) : Prop := ∀ c ∈ ['<', '?', 'e', ' ', '>'], c ∉ k.mark

theorem split?_outside_cons {k : Closer} (hm : k.mark ≠ []) {depth : Nat} {c : Char}
    {t before after : Text} (hq : Quoted.isQuote c = false) (hc : c ∉ k.mark)
    (h : k.split? depth .outside (c :: t) = some (before, after)) :
    ∃ depth' inner, before = c :: inner ∧ k.split? depth' .outside t = some (inner, after) := by
  have hnot : ¬ (k.hit? depth .outside (c :: t)).isSome := by
    rw [hit?_isSome_iff]
    rintro ⟨-, -, hmark⟩
    rcases List.prefix_cons_iff.1 hmark with hnil | ⟨more, hcons, -⟩
    · exact hm hnil
    · rw [hcons] at hc
      exact hc List.mem_cons_self
  rw [split?_of_not_hit? hnot] at h
  obtain ⟨inner, hinner, rfl⟩ := eq_some_of_prepend h
  have hnext : outside.next c = .outside := by simp [next, hq]
  rw [hnext] at hinner
  exact ⟨_, inner, rfl, hinner⟩

theorem Surfaces.exists_mark {rest t : Text} (h : Surfaces rest t) :
    ∃ x y more, t = x :: '?' :: y :: more ∧
      x ∈ ['<', ' ', 'e', '>'] ∧ y ∈ ['<', ' ', 'e', '>'] := by
  cases h with
  | start h => exact ⟨'<', 'e', _, rfl, by simp, by simp⟩
  | finish => exact ⟨' ', '>', _, rfl, by simp, by simp⟩

theorem IsApart.passes {k : Closer} (hk : k.IsApart) {c : Char} (hc : c ∈ ['<', ' ', 'e', '>']) :
    Quoted.isQuote c = false ∧ c ∉ k.mark ∧ c ≠ '?' := by
  have hmark := hk c
  simp only [List.mem_cons, List.not_mem_nil, or_false] at hc hmark
  rcases hc with rfl | rfl | rfl | rfl <;> exact ⟨rfl, hmark (by simp), by decide⟩

theorem not_paired_of_leaves {k : Closer} (hm : k.mark ≠ []) (hk : k.IsApart)
    {before after rest : Text} (h : k.Leaves .outside before after rest) :
    ¬ Paired (outside.outline before) := by
  obtain ⟨depth, lead, t, inner, rfl, hrun, hsplit, hsurfaces⟩ := h
  obtain ⟨x, y, more, rfl, hx, hy⟩ := hsurfaces.exists_mark
  obtain ⟨hxquote, hxmark, hxne⟩ := hk.passes hx
  obtain ⟨hyquote, hymark, hyne⟩ := hk.passes hy
  -- the split passes the question mark of `<?e` or ` ?>` with what is on either side of it
  obtain ⟨_, first, rfl, hfirst⟩ := split?_outside_cons hm hxquote hxmark hsplit
  obtain ⟨_, second, rfl, hsecond⟩ := split?_outside_cons hm rfl (hk '?' (by simp)) hfirst
  obtain ⟨_, third, rfl, -⟩ := split?_outside_cons hm hyquote hymark hsecond
  intro hpaired
  rw [outline_append, hrun, outline_outside_cons hxquote, outline_outside_cons rfl,
    outline_outside_cons hyquote] at hpaired
  exact hpaired.not_alone rfl hxne hyne

/-- What is split off a compiled text with question marks in pairs only is split off the
source, the contents of literals aside. -/
theorem exists_ends_of_rewritten {k : Closer} (hmild : k.IsMild) (hapart : k.IsApart)
    {t before after : Text} (h : Rewritten t (before ++ (k.mark ++ after)))
    (hends : k.Ends 0 .outside before) (hpaired : Paired (outside.outline before)) :
    ∃ b r, t = b ++ (k.mark ++ r) ∧ k.Ends 0 .outside b ∧ Alike before b := by
  have hsplit : k.split? 0 .outside (before ++ (k.mark ++ after)) = some (before, after) :=
    hends after
  rcases follows_of_rewritten (s := .outside) hmild h trivial hsplit with
    ⟨b, r, hb, hout⟩ | ⟨rest, hleaves, -, -⟩
  · obtain ⟨ht, hb'⟩ := (split?_eq_some_iff hmild.1).1 hb
    exact ⟨b, r, ht, hb', hout.symm⟩
  · exact absurd hpaired (not_paired_of_leaves hmild.1 hapart hleaves)

theorem isMild_paren : paren.IsMild := by
  simp [IsMild, paren, Quoted.isQuote]

theorem isApart_paren : paren.IsApart := by
  simp [IsApart, paren]

theorem isMild_echoClose : (ofMark echoClose).IsMild := by
  simp [IsMild, ofMark, echoClose, Quoted.isQuote]

theorem isApart_echoClose : (ofMark echoClose).IsApart := by
  simp [IsApart, ofMark, echoClose]

theorem isMild_instructionClose : (ofMark instructionClose).IsMild := by
  simp [IsMild, ofMark, instructionClose, Quoted.isQuote]

/-! ## Ends of instructions -/

theorem depth_eq_zero_of_split? {mark : Text} {depth : Nat} {s : Quoting} {t before after : Text}
    (h : (ofMark mark).split? depth s t = some (before, after)) : depth = 0 := by
  induction t generalizing s before with
  | nil =>
      rw [split?_nil] at h
      cases h
  | cons c t ih =>
      by_cases hhit : ((ofMark mark).hit? depth s (c :: t)).isSome
      · exact (hit?_isSome_iff.1 hhit).2.1
      · rw [split?_of_not_hit? hhit] at h
        have hdepth : (ofMark mark).depthAfter depth s c = depth := by simp [depthAfter, ofMark]
        obtain ⟨inner, hinner, -⟩ := eq_some_of_prepend h
        rw [hdepth] at hinner
        exact ih hinner

theorem eq_compile_of_leaves {s : Quoting} {before after rest : Text}
    (h : (ofMark instructionClose).Leaves s before after rest) : after = compile rest := by
  obtain ⟨depth, lead, t, inner, -, -, hsplit, hsurfaces⟩ := h
  obtain rfl := depth_eq_zero_of_split? hsplit
  cases hsurfaces with
  | @start content hsealed =>
      have hopen : ∀ c ∈ instructionOpen ++ [' '], Quoted.isQuote c = false := by
        simp [instructionOpen, Quoted.isQuote]
      have hsealed' : IsSealed (instructionOpen ++ [' '] ++ content) := by
        refine hsealed.append (run_outside_of_isPlain hopen) ?_
        rw [outline_outside_of_isPlain hopen, List.append_assoc]
        intro hmark
        rcases Rewritten.infix_of_infix_append_cons (by decide) hmark with hfront | hback
        · revert hfront
          decide
        · exact hsealed.silent hback
      have hwhole := split?_instructionClose .outside (instructionOpen ++ [' '] ++ content)
        (compile rest) hsealed'.closed hsealed'.silent
      have htext : instructionText content ++ compile rest =
          instructionOpen ++ [' '] ++ content ++ ' ' :: instructionClose ++ compile rest := by
        simp [instructionText]
      rw [htext, hwhole] at hsplit
      cases hsplit
      rfl
  | finish =>
      have hwhole :=
        split?_instructionClose .outside [] (compile rest) rfl (by simp [instructionClose])
      rw [List.nil_append, hsplit] at hwhole
      cases hwhole
      rfl

end Closer

namespace Fragment

variable {t t' : Text}

theorem keyword?_of_rewritten (h : Rewritten t t') (hsome : (keyword? t').isSome) :
    (keyword? t).isSome := by
  obtain ⟨⟨f, rest⟩, hf⟩ := Option.isSome_iff_exists.1 hsome
  obtain ⟨hcall, ht'⟩ := keyword?_eq_some_iff.1 hf
  cases hcall with
  | @closed k gap arguments _ d hk hgap hd hends =>
      have htext :
          t' = k.spelling ++ gap ++ ['('] ++ (arguments ++ (Closer.paren.mark ++ rest)) := by
        simpa [Closer.paren] using ht'
      have hlead : '<' ∉ k.spelling ++ gap ++ ['('] := by
        have hword : '<' ∉ k.spelling := by cases k <;> simp [Keyword.spelling]
        have hgap' : '<' ∉ gap := fun hc => by cases hgap _ hc
        simp [hword, hgap']
      rw [htext] at h
      obtain ⟨u, rfl, hu⟩ := h.of_append hlead
      have hclosed := hends.run Closer.isMild_paren.1
      have hpaired := paired_of_directive? hclosed hk hd
      obtain ⟨b, r, rfl, hb, hlike⟩ := Closer.exists_ends_of_rewritten Closer.isMild_paren
        Closer.isApart_paren hu hends hpaired
      obtain ⟨d', hd'⟩ :=
        directive?_of_alike hlike hclosed (hb.run Closer.isMild_paren.1) hd
      have hfound : keyword? (k.spelling ++ gap ++ ['('] ++ (b ++ (Closer.paren.mark ++ r))) =
          some (⟨.directive d', '@' :: k.spelling ++ gap ++ '(' :: b ++ [')']⟩, r) :=
        keyword?_eq_some_iff.2 ⟨.closed hk hgap hd' hb, by simp [Closer.paren]⟩
      rw [hfound]
      rfl
  | @bare k _ d hk hd hrest =>
      have htext : t' = k.spelling ++ rest := by simpa using ht'
      have hlead : '<' ∉ k.spelling := by cases k <;> simp [Keyword.spelling]
      rw [htext] at h
      obtain ⟨u, rfl, hu⟩ := h.of_append hlead
      rw [hu.isIdentPart_head?] at hrest
      have hfound : keyword? (k.spelling ++ u) = some (⟨.directive d, '@' :: k.spelling⟩, u) :=
        keyword?_eq_some_iff.2 ⟨.bare hk hd hrest, rfl⟩
      rw [hfound]
      rfl

theorem echo?_of_rewritten (h : Rewritten t t') (hsome : (echo? ('{' :: t')).isSome) :
    (echo? ('{' :: t)).isSome := by
  obtain ⟨⟨f, rest⟩, hf⟩ := Option.isSome_iff_exists.1 hsome
  obtain ⟨argument, d, hd, hends, rfl, ht'⟩ := echo?_eq_some_iff.1 hf
  have htext : t' = ['{'] ++ (argument ++ ((Closer.ofMark echoClose).mark ++ rest)) := by
    simpa [echoOpen, Closer.ofMark] using ht'
  rw [htext] at h
  obtain ⟨u, rfl, hu⟩ := h.of_append (by decide)
  have hclosed := hends.run Closer.isMild_echoClose.1
  have hpaired := paired_of_echo? hclosed hd
  obtain ⟨b, r, rfl, hb, hlike⟩ := Closer.exists_ends_of_rewritten Closer.isMild_echoClose
    Closer.isApart_echoClose hu hends hpaired
  obtain ⟨d', hd'⟩ := echo?_of_alike hlike hclosed (hb.run Closer.isMild_echoClose.1) hd
  have hfound : echo? ('{' :: (['{'] ++ (b ++ ((Closer.ofMark echoClose).mark ++ r)))) =
      some (⟨.directive d', echoOpen ++ b ++ echoClose⟩, r) :=
    echo?_eq_some_iff.2 ⟨b, d', hd', hb, rfl, by simp [Closer.ofMark, echoOpen]⟩
  rw [hfound]
  rfl

theorem comment?_of_rewritten (h : Rewritten t t') (hsome : (comment? ('{' :: t')).isSome) :
    (comment? ('{' :: t)).isSome := by
  rw [comment?_isSome_iff] at hsome ⊢
  obtain ⟨u', hu', hclose⟩ := hsome
  obtain ⟨u, hu, hrest⟩ := Rewritten.of_append (hu' ▸ Rewritten.copy '{' h) (by decide)
  exact ⟨u, hu, hrest.commentClose_left hclose⟩

theorem recognise?_of_rewritten {c : Char} (hc : c ≠ '<') (h : Rewritten t t')
    (hnone : recognise? (c :: t) = none) : recognise? (c :: t') = none := by
  by_cases hbrace : c = '{'
  · subst hbrace
    rw [recognise?_brace] at hnone ⊢
    split at hnone
    · cases hnone
    · next hcomment =>
      have hcomment' : comment? ('{' :: t') = none := by
        by_contra hsome
        have hfound := comment?_of_rewritten h (Option.isSome_iff_ne_none.2 hsome)
        rw [hcomment] at hfound
        cases hfound
      rw [hcomment']
      by_contra hsome
      have hfound := echo?_of_rewritten h (Option.isSome_iff_ne_none.2 hsome)
      rw [hnone] at hfound
      cases hfound
  · by_cases hat : c = '@'
    · subst hat
      by_contra hsome
      have hfound := keyword?_of_rewritten h (Option.isSome_iff_ne_none.2 hsome)
      rw [show keyword? t = none from hnone] at hfound
      cases hfound
    · exact recognise?_of_ne hc hbrace hat t'

theorem instruction?_of_rewritten (h : Rewritten t t') {f : Fragment} {after : Text}
    (hf : instruction? ('<' :: t') = some (f, after)) :
    (instruction? ('<' :: t)).isSome ∨
      ∃ rest, after = compile rest ∧ IsCanonical rest ∧ rest.length < t.length := by
  obtain ⟨c, body, hc, hends, rfl, ht'⟩ := instruction?_eq_some_iff.1 hf
  have htext : t' = ['?', 'e', 'l', 'l', 'e'] ++
      (c :: body ++ ((Closer.ofMark instructionClose).mark ++ after)) := by
    simpa [instructionOpen, Closer.ofMark] using ht'
  rw [htext] at h
  obtain ⟨u, rfl, hu⟩ := h.of_append (by decide)
  rcases Closer.follows_of_rewritten Closer.isMild_instructionClose hu (s := .outside) trivial
    (hends after) with ⟨b, r, hb, hout⟩ | ⟨rest, hleaves, hrest, hlength⟩
  · obtain ⟨rfl, hb'⟩ := (Closer.split?_eq_some_iff Closer.isMild_instructionClose.1).1 hb
    have hhead := congrArg List.head? hout
    rw [head?_outline, head?_outline] at hhead
    obtain ⟨b', rfl⟩ := List.head?_eq_some_iff.1 hhead
    have hfound : instruction? ('<' :: (['?', 'e', 'l', 'l', 'e'] ++
        (c :: b' ++ ((Closer.ofMark instructionClose).mark ++ r)))) =
          some (⟨.instruction (c :: b'), instructionOpen ++ (c :: b') ++ instructionClose⟩, r) :=
      instruction?_eq_some_iff.2 ⟨c, b', hc, hb', rfl, by simp [Closer.ofMark, instructionOpen]⟩
    rw [hfound]
    exact Or.inl rfl
  · refine Or.inr ⟨rest, Closer.eq_compile_of_leaves hleaves, hrest, Nat.lt_of_lt_of_le hlength ?_⟩
    rw [List.length_append]
    exact Nat.le_add_left _ _

end Fragment

end Stencil.Template
