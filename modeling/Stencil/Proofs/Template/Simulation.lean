import Stencil.Proofs.Template.Rewriting

/-!
# Scanning a source and its compiled text

A scan of the compiled text takes what the scan of the source takes, as far as
outlines show, or else it comes to stand outside of literals at the start or at
the end of an instruction that was written for a directive.
-/

namespace Stencil.Template.Closer

open Quoting Fragment

def IsMild (k : Closer) : Prop :=
  k.mark ≠ [] ∧ ∀ c ∈ k.mark, Quoted.isQuote c = false ∧ c ≠ '\\' ∧ c ∉ [' ', '<', '{', '@']

theorem prepend_some (lead before rest : Text) :
    prepend lead (some (before, rest)) = some (lead ++ before, rest) := rfl

/-! ## Hits -/

section

variable {k : Closer} {t t' : Text}

theorem split?_of_hit? {depth : Nat} {s : Quoting} {c : Char}
    (h : (k.hit? depth s (c :: t)).isSome) :
    ∃ rest, k.split? depth s (c :: t) = some ([], rest) := by
  obtain ⟨rest, hrest⟩ := Option.isSome_iff_exists.1 h
  exact ⟨rest, by rw [split?_cons, hrest]⟩

theorem split?_of_not_hit? {depth : Nat} {s : Quoting} {c : Char}
    (h : ¬ (k.hit? depth s (c :: t)).isSome) :
    k.split? depth s (c :: t) =
      prepend [c] (k.split? (k.depthAfter depth s c) (s.next c) t) := by
  rw [Option.not_isSome_iff_eq_none] at h
  rw [split?_cons, h]

theorem hit?_rewritten (hk : k.IsMild) (depth : Nat) (s : Quoting) (h : Rewritten t t') :
    (k.hit? depth s t').isSome ↔ (k.hit? depth s t).isSome := by
  rw [hit?_isSome_iff, hit?_isSome_iff]
  refine and_congr_right fun _ => and_congr_right fun _ => ?_
  constructor
  · rintro ⟨rest, rfl⟩
    obtain ⟨u, rfl, -⟩ := h.of_append fun hc => by simpa using (hk.2 _ hc).2.2
    exact List.prefix_append _ u
  · rintro ⟨rest, rfl⟩
    have hlead : ∀ c ∈ k.mark, c ≠ '{' ∧ c ≠ '@' := by
      intro c hc
      have hmild := (hk.2 c hc).2.2
      simp only [List.mem_cons, not_or] at hmild
      exact ⟨hmild.2.2.1, hmild.2.2.2.1⟩
    obtain ⟨u', rfl, -⟩ := h.of_append_left hlead
    exact List.prefix_append _ u'

end

/-! ## Common text -/

theorem prefix_of_prefix_append_cons {mark t u : Text} {c : Char} (hc : c ∉ mark)
    (h : mark <+: t ++ c :: u) : mark <+: t := by
  rcases List.prefix_or_prefix_of_prefix h (List.prefix_append t (c :: u)) with h' | ⟨more, rfl⟩
  · exact h'
  · rw [List.prefix_append_right_inj] at h
    rcases List.prefix_cons_iff.1 h with rfl | ⟨rest, rfl, -⟩
    · simp
    · exact absurd (List.mem_append_right t List.mem_cons_self) hc

section

variable {k : Closer} (hk : k.IsMild)

include hk

theorem space_not_mem_mark : ' ' ∉ k.mark := fun hc => by simpa using (hk.2 _ hc).2.2

theorem split?_short {t : Text} (ht : t.length < k.mark.length) (depth : Nat) (s : Quoting)
    (u : Text) : ∃ depth', k.split? depth s (t ++ ' ' :: u) =
      prepend t (k.split? depth' (s.run t) (' ' :: u)) := by
  induction t generalizing depth s with
  | nil => exact ⟨depth, by rw [prepend_nil, List.nil_append, run_nil]⟩
  | cons c t ih =>
      rw [List.length_cons] at ht
      have hnot : ¬ (k.hit? depth s (c :: (t ++ ' ' :: u))).isSome := by
        rw [hit?_isSome_iff]
        rintro ⟨-, -, hmark⟩
        rw [← List.cons_append] at hmark
        have hlength := (prefix_of_prefix_append_cons (space_not_mem_mark hk) hmark).length_le
        rw [List.length_cons] at hlength
        omega
      obtain ⟨depth', hsplit⟩ := ih (by omega) (k.depthAfter depth s c) (s.next c)
      refine ⟨depth', ?_⟩
      rw [List.cons_append, split?_of_not_hit? hnot, hsplit, prepend_prepend]
      rfl

theorem length_lt_of_straddle {t u : Text} (h : k.mark <+: t ++ u) (hnot : ¬ k.mark <+: t) :
    t.length < k.mark.length ∧ outside.run t = .outside := by
  rcases List.prefix_or_prefix_of_prefix h (List.prefix_append t u) with h' | h'
  · exact absurd h' hnot
  · constructor
    · refine Nat.lt_of_le_of_ne h'.length_le fun hlength => hnot ?_
      obtain rfl := h'.eq_of_length hlength
      exact List.prefix_rfl
    · exact run_outside_of_isPlain fun c hc => (hk.2 c (h'.subset hc)).1

/-- Text that two texts have in common, with a space behind it in one of them: a split of that
one falls within it, or passes it; the other one is then passed too, unless the text ends
outside of literals, where the mark may have started. -/
theorem split?_common {body u u' : Text} {depth : Nat} {s : Quoting} {before rest : Text}
    (h : k.split? depth s (body ++ ' ' :: u') = some (before, rest)) :
    (∃ r, k.split? depth s (body ++ u) = some (before, r)) ∨
      ∃ depth' inner, k.split? depth' (s.run body) (' ' :: u') = some (inner, rest) ∧
        before = body ++ inner ∧ (s.run body ≠ .outside →
          k.split? depth s (body ++ u) = prepend body (k.split? depth' (s.run body) u)) := by
  induction body generalizing depth s before with
  | nil => exact Or.inr ⟨depth, before, h, rfl, fun _ => by rw [prepend_nil]; rfl⟩
  | cons c body ih =>
      by_cases hhit : (k.hit? depth s (c :: (body ++ ' ' :: u'))).isSome
      · obtain ⟨rest', hrest⟩ := split?_of_hit? hhit
        rw [List.cons_append, hrest] at h
        cases h
        rw [hit?_isSome_iff, ← List.cons_append] at hhit
        have hmark := prefix_of_prefix_append_cons (space_not_mem_mark hk) hhit.2.2
        refine Or.inl (split?_of_hit? (hit?_isSome_iff.2 ⟨hhit.1, hhit.2.1, ?_⟩))
        exact hmark.trans (List.prefix_append (c :: body) u)
      · by_cases hother : (k.hit? depth s (c :: (body ++ u))).isSome
        · -- the mark goes on behind the common text, which lies outside of literals then
          rw [hit?_isSome_iff, ← List.cons_append] at hother hhit
          obtain ⟨rfl, rfl, hmark⟩ := hother
          obtain ⟨hlength, hrun⟩ := length_lt_of_straddle hk hmark
            fun hc => hhit ⟨rfl, rfl, hc.trans (List.prefix_append _ _)⟩
          obtain ⟨depth', hsplit⟩ := split?_short hk hlength 0 .outside u'
          rw [hsplit] at h
          obtain ⟨inner, hinner, rfl⟩ := eq_some_of_prepend h
          exact Or.inr ⟨depth', inner, hinner, rfl, fun hne => absurd hrun hne⟩
        · rw [List.cons_append, split?_of_not_hit? hhit] at h
          obtain ⟨inner, hinner, rfl⟩ := eq_some_of_prepend h
          rw [List.cons_append, split?_of_not_hit? hother, run_cons]
          rcases ih hinner with ⟨r, hr⟩ | ⟨depth', more, hmore, rfl, hpass⟩
          · exact Or.inl ⟨r, by rw [hr]; rfl⟩
          · refine Or.inr ⟨depth', more, hmore, rfl, fun hne => ?_⟩
            rw [hpass hne, prepend_prepend]
            rfl

end

theorem split?_plain (k : Closer) (depth : Nat) {s : Quoting} (hs : s.IsProper)
    (hne : s ≠ .outside) {t : Text} (ht : IsPlain t) (u : Text) :
    k.split? depth s (t ++ u) = prepend t (k.split? depth (s.run t) u) := by
  induction t generalizing s with
  | nil => rw [prepend_nil]; rfl
  | cons c t ih =>
      obtain ⟨quote, _, hq, hnext⟩ := next_of_ne_outside hs hne
      have hc := (hnext c (ht c List.mem_cons_self)).1
      have htail : IsPlain t := fun d hd => ht d (List.mem_cons_of_mem _ hd)
      have hinside : (Quoting.inside quote).IsProper := hq
      rw [List.cons_append, split?_cons_of_ne_outside k depth hne, hc,
        ih hinside (by simp) htail, prepend_prepend, run_cons, hc]
      rfl

/-! ## Spliced texts -/

/-- What a scan of the compiled text stands in front of when it leaves the source. -/
inductive Surfaces (rest : Text) : Text → Prop
  | start {content : Text} (h : IsSealed content) :
      Surfaces rest (instructionText content ++ compile rest)
  | finish : Surfaces rest (' ' :: instructionClose ++ compile rest)

def Leaves (k : Closer) (s : Quoting) (before after rest : Text) : Prop :=
  ∃ depth lead t inner, before = lead ++ inner ∧ s.run lead = .outside ∧
    k.split? depth .outside t = some (inner, after) ∧ Surfaces rest t

theorem Leaves.append {k : Closer} {s : Quoting} {before after rest : Text} {lead : Text}
    (h : k.Leaves (s.run lead) before after rest) : k.Leaves s (lead ++ before) after rest := by
  obtain ⟨depth, front, t, inner, rfl, hrun, hsplit, hsurfaces⟩ := h
  exact ⟨depth, lead ++ front, t, inner, by simp, by rw [run_append, hrun], hsplit, hsurfaces⟩

def Follows (k : Closer) (depth : Nat) (s : Quoting) (t before after : Text) : Prop :=
  (∃ b r, k.split? depth s t = some (b, r) ∧ s.outline b = s.outline before) ∨
    ∃ rest, k.Leaves s before after rest ∧ IsCanonical rest ∧ rest.length < t.length

theorem follows_plain {k : Closer} {depth : Nat} {s : Quoting} (hs : s.IsProper)
    (hne : s ≠ .outside) {lead lead' : Text} (hlead : IsPlain lead ∧ lead ≠ [])
    (hlead' : IsPlain lead' ∧ lead' ≠ []) {t t' before after : Text}
    (h : k.split? depth s (lead' ++ t') = some (before, after))
    (hfollow : ∀ s' inner, Quoting.IsProper s' → k.split? depth s' t' = some (inner, after) →
      k.Follows depth s' t inner after) : k.Follows depth s (lead ++ t) before after := by
  obtain ⟨quote, o, hq, hplain⟩ := run_of_ne_outside hs hne
  obtain ⟨hrun, hline⟩ := hplain lead hlead.1 hlead.2
  obtain ⟨hrun', hline'⟩ := hplain lead' hlead'.1 hlead'.2
  rw [split?_plain k depth hs hne hlead'.1, hrun'] at h
  obtain ⟨inner, hinner, rfl⟩ := eq_some_of_prepend h
  rcases hfollow (.inside quote) inner hq hinner with
    ⟨b, r, hb, hout⟩ | ⟨rest, hleaves, hrest, hlength⟩
  · refine Or.inl ⟨lead ++ b, r, ?_, ?_⟩
    · rw [split?_plain k depth hs hne hlead.1, hrun, hb, prepend_some]
    · rw [outline_append, outline_append, hrun, hrun', hline, hline', hout]
  · rw [← hrun'] at hleaves
    refine Or.inr ⟨rest, hleaves.append, hrest, Nat.lt_of_lt_of_le hlength ?_⟩
    simp

section

variable {k : Closer} (hk : k.IsMild) {rest : Text} (hrest : IsCanonical rest)

include hk hrest

theorem follows_body {after : Text}
    (ih : ∀ (depth : Nat) (s : Quoting) (before : Text), s.IsProper →
      k.split? depth s (compile rest) = some (before, after) →
        k.Follows depth s rest before after) {body tail : Text} (htail : IsPlain tail ∧ tail ≠ [])
    {depth : Nat} {s : Quoting} (hs : s.IsProper) {before : Text}
    (h : k.split? depth s (body ++ ' ' :: (instructionClose ++ compile rest)) =
      some (before, after)) :
    k.Follows depth s (body ++ (tail ++ rest)) before after := by
  have hlength : rest.length < (body ++ (tail ++ rest)).length := by
    have := List.length_pos_iff.2 htail.2
    simp only [List.length_append]
    omega
  rcases split?_common hk h with ⟨r, hr⟩ | ⟨depth', inner, hinner, rfl, hpass⟩
  · exact Or.inl ⟨before, r, hr, rfl⟩
  · by_cases hout : s.run body = .outside
    · rw [hout] at hinner
      exact Or.inr ⟨rest, ⟨depth', body, _, inner, rfl, hout, hinner, .finish⟩, hrest, hlength⟩
    · -- within a literal of the body the tail and the closing mark are only its content
      have hclose : IsPlain (' ' :: instructionClose) ∧ ' ' :: instructionClose ≠ [] := by
        simp [IsPlain, instructionClose, Quoted.isQuote]
      have htailed : k.Follows depth' (s.run body) (tail ++ rest) inner after :=
        follows_plain (hs.run body) hout htail hclose hinner fun s' inner' => ih depth' s' inner'
      rcases htailed with ⟨b, r, hb, hline⟩ | ⟨rest', hleaves, hrest', hlength'⟩
      · refine Or.inl ⟨body ++ b, r, ?_, ?_⟩
        · rw [hpass hout, hb, prepend_some]
        · rw [outline_append, outline_append, hline]
      · refine Or.inr ⟨rest', hleaves.append, hrest', Nat.lt_of_lt_of_le hlength' ?_⟩
        simp

theorem follows_splice {raw content after : Text} (hs : IsSpliced raw content)
    (ih : ∀ (depth : Nat) (s : Quoting) (before : Text), s.IsProper →
      k.split? depth s (compile rest) = some (before, after) →
        k.Follows depth s rest before after) {depth : Nat} {s : Quoting} (hproper : s.IsProper)
    {before : Text}
    (h : k.split? depth s (instructionText content ++ compile rest) = some (before, after)) :
    k.Follows depth s (raw ++ rest) before after := by
  cases hs with
  | @mk lead body tail front hlead hhead htail hne hfront hsealed =>
      have hne' : lead ≠ [] := by
        obtain ⟨c, more, rfl, -⟩ := hhead
        exact List.cons_ne_nil c more
      rw [List.append_assoc, List.append_assoc]
      by_cases hout : s = .outside
      · have hlength : rest.length < (lead ++ (body ++ (tail ++ rest))).length := by
          have := List.length_pos_iff.2 hne'
          simp only [List.length_append]
          omega
        subst hout
        exact Or.inr ⟨rest, ⟨depth, [], _, before, rfl, rfl, h, .start hsealed⟩, hrest, hlength⟩
      · have hopen : IsPlain (instructionOpen ++ [' ']) := by
          simp [IsPlain, instructionOpen, Quoted.isQuote]
        have hopening : IsPlain (instructionOpen ++ [' '] ++ front) ∧
            instructionOpen ++ [' '] ++ front ≠ [] :=
          ⟨hopen.append hfront.isPlain, by simp⟩
        have htext : instructionText (front ++ body) ++ compile rest =
            instructionOpen ++ [' '] ++ front ++
              (body ++ ' ' :: (instructionClose ++ compile rest)) := by
          simp [instructionText]
        rw [htext] at h
        exact follows_plain hproper hout ⟨hlead, hne'⟩ hopening h fun s' inner hs' hinner =>
          follows_body hk hrest ih ⟨htail, hne⟩ hs' hinner

end

theorem follows_of_rewritten {k : Closer} (hk : k.IsMild) {t t' : Text} (h : Rewritten t t')
    {depth : Nat} {s : Quoting} (hs : s.IsProper) {before after : Text}
    (hsplit : k.split? depth s t' = some (before, after)) : k.Follows depth s t before after := by
  induction h generalizing depth s before with
  | nil =>
      rw [split?_nil] at hsplit
      cases hsplit
  | @copy c t t' h ih =>
      have hboth := hit?_rewritten hk depth s (.copy c h)
      by_cases hhit : (k.hit? depth s (c :: t')).isSome
      · obtain ⟨r', hr'⟩ := split?_of_hit? hhit
        obtain ⟨r, hr⟩ := split?_of_hit? (hboth.1 hhit)
        rw [hr'] at hsplit
        cases hsplit
        exact Or.inl ⟨[], r, hr, rfl⟩
      · rw [split?_of_not_hit? hhit] at hsplit
        obtain ⟨inner, hinner, rfl⟩ := eq_some_of_prepend hsplit
        rcases ih (hs.next c) hinner with ⟨b, r, hb, hout⟩ | ⟨rest, hleaves, hcanonical, hlength⟩
        · refine Or.inl ⟨c :: b, r, ?_, ?_⟩
          · rw [split?_of_not_hit? fun hc => hhit (hboth.2 hc), hb]
            rfl
          · rw [outline_cons, hout, List.singleton_append, outline_cons]
        · have hcons : k.Leaves s ([c] ++ inner) after rest := Leaves.append hleaves
          exact Or.inr ⟨rest, hcons, hcanonical, Nat.lt_succ_of_lt hlength⟩
  | splice hsplice hrest _ ih =>
      exact follows_splice hk hrest hsplice (fun _ _ _ hs hsplit => ih hs hsplit) hs hsplit

end Stencil.Template.Closer
