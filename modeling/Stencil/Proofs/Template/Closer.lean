import Stencil.Proofs.Template.Quoting

/-!
# Closers

Both scanners look for a mark outside of literals, one of them past nested
parentheses.  They are one scanner with two settings, which takes a character
at a time, so what holds of scanning is shown once.
-/

namespace Stencil.Template

/-- What a scanner looks for, and whether parentheses nest on the way to it. -/
structure Closer where
  mark : Text
  nests : Bool
deriving DecidableEq, Repr

namespace Closer

def ofMark (mark : Text) : Closer := ⟨mark, false⟩

def paren : Closer := ⟨[')'], true⟩

def hit? (k : Closer) (depth : Nat) (s : Quoting) (t : Text) : Option Text :=
  if s = .outside ∧ depth = 0 then Text.after? k.mark t else none

def depthAfter (k : Closer) (depth : Nat) (s : Quoting) (c : Char) : Nat :=
  if s = .outside ∧ k.nests then
    if c = '(' then depth + 1 else if c = ')' then depth - 1 else depth
  else depth

def split? (k : Closer) : Nat → Quoting → Text → Option (Text × Text)
  | _, _, [] => none
  | depth, s, c :: t =>
    match k.hit? depth s (c :: t) with
    | some rest => some ([], rest)
    | none => prepend [c] (k.split? (k.depthAfter depth s c) (s.next c) t)

@[simp] theorem split?_nil (k : Closer) (depth : Nat) (s : Quoting) :
    k.split? depth s [] = none := by
  unfold split?
  rfl

theorem split?_cons (k : Closer) (depth : Nat) (s : Quoting) (c : Char) (t : Text) :
    k.split? depth s (c :: t) =
      match k.hit? depth s (c :: t) with
      | some rest => some ([], rest)
      | none => prepend [c] (k.split? (k.depthAfter depth s c) (s.next c) t) := by
  rw [split?]

theorem hit?_isSome_iff {k : Closer} {depth : Nat} {s : Quoting} {t : Text} :
    (k.hit? depth s t).isSome ↔ s = .outside ∧ depth = 0 ∧ k.mark <+: t := by
  unfold hit?
  split
  · next hs =>
    rw [Option.isSome_iff_exists]
    simp only [Text.after?_eq_some_iff, hs, true_and]
    exact ⟨fun ⟨rest, h⟩ => ⟨rest, h.symm⟩, fun ⟨rest, h⟩ => ⟨rest, h.symm⟩⟩
  · next hs =>
    constructor
    · intro h
      cases h
    · rintro ⟨hs', hdepth, -⟩
      exact absurd ⟨hs', hdepth⟩ hs

theorem hit?_of_ne_outside (k : Closer) (depth : Nat) {s : Quoting} (hs : s ≠ .outside)
    (t : Text) : k.hit? depth s t = none := by
  simp [hit?, hs]

theorem depthAfter_of_ne_outside (k : Closer) (depth : Nat) {s : Quoting} (hs : s ≠ .outside)
    (c : Char) : k.depthAfter depth s c = depth := by
  simp [depthAfter, hs]

theorem split?_cons_of_ne_outside (k : Closer) (depth : Nat) {s : Quoting} (hs : s ≠ .outside)
    (c : Char) (t : Text) :
    k.split? depth s (c :: t) = prepend [c] (k.split? depth (s.next c) t) := by
  rw [split?_cons, hit?_of_ne_outside k depth hs, depthAfter_of_ne_outside k depth hs]

theorem split?_opened (k : Closer) (depth : Nat) (quote : Char) (t : Text) :
    k.split? depth (.opened quote) t = k.split? depth (.inside quote) t := by
  cases t with
  | nil => simp
  | cons c t =>
      rw [split?_cons_of_ne_outside k depth (by simp),
        split?_cons_of_ne_outside k depth (by simp)]
      rfl

def Sharp (mark : Text) : Prop := ∃ c rest, mark = c :: rest ∧ Quoted.isQuote c = false

theorem after?_of_isQuote {mark : Text} (hm : Sharp mark) {c : Char}
    (hc : Quoted.isQuote c = true) (t : Text) : Text.after? mark (c :: t) = none := by
  obtain ⟨d, rest, rfl, hd⟩ := hm
  have hne : d ≠ c := by
    rintro rfl
    rw [hc] at hd
    cases hd
  simp [Text.after?, hne]

theorem split?_of_outline {k : Closer} (hm : k.mark ≠ []) {s : Quoting} {t : Text}
    (hrun : s.run t = .outside)
    (hclear : ∀ c ∈ s.outline t, c ∉ k.mark.head? ∧ c ≠ '(' ∧ c ≠ ')') (rest : Text) :
    k.split? 0 s (t ++ (k.mark ++ rest)) = some (t, rest) := by
  induction t generalizing s with
  | nil =>
      rw [Quoting.run_nil] at hrun
      obtain ⟨c, mark, hmark⟩ := List.exists_cons_of_ne_nil hm
      have hhit : k.hit? 0 s (k.mark ++ rest) = some rest := by simp [hit?, hrun]
      rw [hmark] at hhit
      rw [List.nil_append, hmark, List.cons_append, split?_cons]
      rw [List.cons_append] at hhit
      rw [hhit]
  | cons c t ih =>
      rw [Quoting.outline_cons] at hclear
      have hrest := ih hrun fun d hd => hclear d (List.mem_append_right _ hd)
      have hstep : k.hit? 0 s (c :: (t ++ (k.mark ++ rest))) = none ∧ k.depthAfter 0 s c = 0 := by
        by_cases hs : s = .outside
        · subst hs
          obtain ⟨hhead, hopen, hclose⟩ := hclear c (by simp [Quoting.shown])
          refine ⟨?_, by simp [depthAfter, hopen, hclose]⟩
          obtain ⟨d, mark, hmark⟩ := List.exists_cons_of_ne_nil hm
          have hd : d ≠ c := by simpa [hmark] using hhead
          simp [hit?, hmark, Text.after?, hd]
        · exact ⟨hit?_of_ne_outside k 0 hs _, depthAfter_of_ne_outside k 0 hs c⟩
      rw [List.cons_append, split?_cons, hstep.1, hstep.2, hrest]
      rfl

/-! ## What is split off -/

/-- A scanner passes the whole of `before` and stops at the mark behind it. -/
def Ends (k : Closer) (depth : Nat) (s : Quoting) (before : Text) : Prop :=
  ∀ rest, k.split? depth s (before ++ (k.mark ++ rest)) = some (before, rest)

theorem hit?_eq_none_of_mark {k : Closer} {depth : Nat} {s : Quoting} {t rest : Text}
    (h : k.hit? depth s (t ++ (k.mark ++ rest)) = none) (rest' : Text) :
    k.hit? depth s (t ++ (k.mark ++ rest')) = none := by
  rw [Option.eq_none_iff_forall_not_mem] at h ⊢
  intro after hafter
  unfold hit? at h hafter
  split at hafter
  · next hs =>
    rw [if_pos hs] at h
    have hstart : k.mark <+: t ++ k.mark ++ rest' := by
      rw [List.append_assoc]
      exact ⟨after, (Text.after?_eq_some_iff.1 hafter).symm⟩
    have hlength : k.mark.length ≤ (t ++ k.mark).length := by simp
    have hwithin := List.prefix_of_prefix_length_le hstart (List.prefix_append _ _) hlength
    obtain ⟨more, hmore⟩ := hwithin.trans (List.prefix_append _ rest)
    rw [List.append_assoc] at hmore
    exact h more (Text.after?_eq_some_iff.2 hmore.symm)
  · cases hafter

theorem split?_eq_some {k : Closer} (hm : k.mark ≠ []) {depth : Nat} {s : Quoting}
    {t before rest : Text} (h : k.split? depth s t = some (before, rest)) :
    t = before ++ (k.mark ++ rest) ∧ k.Ends depth s before ∧ s.run before = .outside := by
  induction t generalizing depth s before with
  | nil =>
      rw [split?_nil] at h
      cases h
  | cons c t ih =>
      rw [split?_cons] at h
      cases hhit : k.hit? depth s (c :: t) with
      | some after =>
          rw [hhit] at h
          cases h
          unfold hit? at hhit
          split at hhit
          · next hs =>
            obtain ⟨rfl, rfl⟩ := hs
            have htext := Text.after?_eq_some_iff.1 hhit
            refine ⟨htext, fun rest' => ?_, rfl⟩
            obtain ⟨d, mark, hmark⟩ := List.exists_cons_of_ne_nil hm
            have hnow : k.hit? 0 .outside (k.mark ++ rest') = some rest' := by simp [hit?]
            rw [hmark, List.cons_append] at hnow
            rw [List.nil_append, hmark, List.cons_append, split?_cons, hnow]
          · cases hhit
      | none =>
          rw [hhit] at h
          obtain ⟨inner, hinner, rfl⟩ := eq_some_of_prepend h
          obtain ⟨rfl, hends, hrun⟩ := ih hinner
          refine ⟨rfl, fun rest' => ?_, hrun⟩
          have hnone := hit?_eq_none_of_mark (t := c :: inner) hhit rest'
          rw [List.cons_append] at hnone
          rw [List.singleton_append, List.cons_append, split?_cons, hnone, hends rest']
          rfl

theorem split?_eq_some_iff {k : Closer} (hm : k.mark ≠ []) {depth : Nat} {s : Quoting}
    {t before rest : Text} : k.split? depth s t = some (before, rest) ↔
      t = before ++ (k.mark ++ rest) ∧ k.Ends depth s before := by
  constructor
  · intro h
    obtain ⟨ht, hends, -⟩ := split?_eq_some hm h
    exact ⟨ht, hends⟩
  · rintro ⟨rfl, hends⟩
    exact hends rest

theorem Ends.run {k : Closer} (hm : k.mark ≠ []) {depth : Nat} {s : Quoting} {before : Text}
    (h : k.Ends depth s before) : s.run before = .outside :=
  (split?_eq_some hm (h [])).2.2

/-! ## The two scanners -/

def standing : Option Char → Quoting
  | none => .outside
  | some quote => .inside quote

@[simp] theorem standing_none : standing none = .outside := rfl

theorem prepend_nil (split : Option (Text × Text)) : prepend [] split = split := by
  cases split <;> rfl

theorem prepend_prepend (lead more : Text) (split : Option (Text × Text)) :
    prepend lead (prepend more split) = prepend (lead ++ more) split := by
  cases split <;> simp [prepend]

theorem isQuote_of_eq_some {q c : Char} (hq : Quoted.isQuote q = true) :
    ∀ q', (if c = q then none else some q) = some q' → Quoted.isQuote q' = true := by
  intro q' h
  split at h
  · cases h
  · cases h
    exact hq

theorem split?_standing {k : Closer} {depth : Nat} {q c : Char} {t : Text}
    (hshape : ∀ d t', c = '\\' → t = d :: t' → False) :
    k.split? depth (standing (if c = q then none else some q)) t =
      k.split? depth ((Quoting.inside q).next c) t := by
  by_cases hb : c = '\\'
  · cases t with
    | nil => simp
    | cons d t => exact (hshape d t hb rfl).elim
  · rw [Quoting.next, Quoting.within, if_neg hb]
    split <;> rfl

theorem splitUnquoted?_eq_split? {mark : Text} (hm : Sharp mark) (quote : Option Char)
    (hq : ∀ q, quote = some q → Quoted.isQuote q = true) (t : Text) :
    splitUnquoted? mark quote t = (ofMark mark).split? 0 (standing quote) t := by
  fun_induction splitUnquoted? mark quote t with
  | case1 => simp
  | case2 q c t ih =>
      rw [standing, split?_cons_of_ne_outside _ _ (by simp), Quoting.next,
        Quoting.within_backslash, split?_cons_of_ne_outside _ _ (by simp), prepend_prepend,
        ih hq]
      rfl
  | case3 q c t hshape ih =>
      rw [standing, split?_cons_of_ne_outside _ _ (by simp), ih (isQuote_of_eq_some (hq q rfl)),
        split?_standing hshape]
  | case4 c t hc ih =>
      have hhit : (ofMark mark).hit? 0 .outside (c :: t) = none := by
        simp [hit?, ofMark, after?_of_isQuote hm hc]
      rw [standing, split?_cons, hhit]
      simp only [depthAfter, ofMark, Bool.false_eq_true, and_false, if_false, Quoting.next, hc,
        if_true, split?_opened]
      exact congrArg (prepend [c]) (ih (by simpa using hc))
  | case5 c t hc rest hr =>
      have hhit : (ofMark mark).hit? 0 .outside (c :: t) = some rest := by
        simp [hit?, ofMark, hr]
      rw [standing, split?_cons, hhit]
  | case6 c t hc hr ih =>
      have hhit : (ofMark mark).hit? 0 .outside (c :: t) = none := by
        simp [hit?, ofMark, hr]
      rw [standing, split?_cons, hhit]
      simp only [depthAfter, ofMark, Bool.false_eq_true, and_false, if_false, Quoting.next, hc]
      exact congrArg (prepend [c]) (ih (by simp))

theorem splitParen?_eq_split? (depth : Nat) (quote : Option Char)
    (hq : ∀ q, quote = some q → Quoted.isQuote q = true) (t : Text) :
    splitParen? depth quote t = paren.split? depth (standing quote) t := by
  fun_induction splitParen? depth quote t with
  | case1 => simp
  | case2 depth q c t ih =>
      rw [standing, split?_cons_of_ne_outside _ _ (by simp), Quoting.next,
        Quoting.within_backslash, split?_cons_of_ne_outside _ _ (by simp), prepend_prepend,
        ih hq]
      rfl
  | case3 depth q c t hshape ih =>
      rw [standing, split?_cons_of_ne_outside _ _ (by simp), ih (isQuote_of_eq_some (hq q rfl)),
        split?_standing hshape]
  | case4 depth c t hc ih =>
      have hc' : c ≠ '(' ∧ c ≠ ')' := by
        constructor <;> rintro rfl <;> cases hc
      have hhit : paren.hit? depth .outside (c :: t) = none := by
        simp [hit?, paren, Text.after?, hc'.2.symm]
      rw [standing, split?_cons, hhit]
      simp only [depthAfter, hc'.1, hc'.2, ite_self, if_false, Quoting.next, hc, if_true,
        split?_opened]
      exact congrArg (prepend [c]) (ih (by simpa using hc))
  | case5 depth t hc ih =>
      have hhit : paren.hit? depth .outside ('(' :: t) = none := by
        simp [hit?, paren, Text.after?]
      rw [standing, split?_cons, hhit]
      exact congrArg (prepend ['(']) (ih (by simp))
  | case6 t hc hne =>
      have hhit : paren.hit? 0 .outside (')' :: t) = some t := by
        simp [hit?, paren, Text.after?]
      rw [standing, split?_cons, hhit]
  | case7 t depth hc hne ih =>
      have hhit : paren.hit? (depth + 1) .outside (')' :: t) = none := by
        simp [hit?]
      rw [standing, split?_cons, hhit]
      exact congrArg (prepend [')']) (ih (by simp))
  | case8 depth c t hc hopen hclose ih =>
      have hhit : paren.hit? depth .outside (c :: t) = none := by
        simp [hit?, paren, Text.after?, Ne.symm hclose]
      rw [standing, split?_cons, hhit]
      simp only [depthAfter, hopen, hclose, ite_self, if_false, Quoting.next, hc]
      exact congrArg (prepend [c]) (ih (by simp))

theorem splitUnquoted?_eq_some_iff {mark : Text} (hm : Sharp mark) {t before rest : Text} :
    splitUnquoted? mark none t = some (before, rest) ↔
      t = before ++ (mark ++ rest) ∧ (ofMark mark).Ends 0 .outside before := by
  have hne : (ofMark mark).mark ≠ [] := by
    obtain ⟨c, more, rfl, -⟩ := hm
    exact List.cons_ne_nil c more
  rw [splitUnquoted?_eq_split? hm none (by simp)]
  exact split?_eq_some_iff hne

theorem splitParen?_eq_some_iff {t before rest : Text} :
    splitParen? 0 none t = some (before, rest) ↔
      t = before ++ ')' :: rest ∧ paren.Ends 0 .outside before := by
  rw [splitParen?_eq_split? 0 none (by simp)]
  exact split?_eq_some_iff (by simp [paren])

end Closer

end Stencil.Template
