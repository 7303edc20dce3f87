import Stencil.Proofs.Expr.Marks
import Stencil.Proofs.Text.Quoted
import Stencil.Template.Directive

/-!
# Arguments of directives

Whether a directive takes its arguments does not depend on what their literals
hold: of alike arguments, all closed, each keyword takes both or neither.  And
outside of literals arguments that are taken have question marks in pairs only.
-/

namespace Stencil.Template

/-! ## Directives taken apart -/

theorem Directive.echo?_eq_some_iff {argument : Text} {d : Directive} :
    echo? argument = some d ↔
      d = .echo (Text.trim argument) ∧ ∃ i, Interpolation.parse argument = .ok i := by
  unfold echo?
  constructor
  · intro h
    split at h
    · next i hi =>
      cases h
      exact ⟨rfl, i, hi⟩
    · cases h
  · rintro ⟨rfl, i, hi⟩
    rw [hi]

namespace Keyword

inductive Builds (arguments : Text) : Keyword → Directive → Prop
  | ifStart {e : Expr} (h : Expr.parse (Text.trim arguments) = .ok e) :
      Builds arguments .ifStart (.ifStart (Text.trim arguments))
  | elseIf {e : Expr} (h : Expr.parse (Text.trim arguments) = .ok e) :
      Builds arguments .elseIf (.elseIf (Text.trim arguments))
  | loopStart {head : LoopHead} (h : LoopHead.parse (Text.trim arguments) = .ok head) :
      Builds arguments .loopStart (.loopStart (Text.trim arguments))
  | embed {name : Text} (h : name? arguments = some name) :
      Builds arguments .embed (.embed name)
  | inherit {name : Text} (h : name? arguments = some name) :
      Builds arguments .inherit (.inherit name)
  | sectionStart {name : Text} {value : Option Text}
      (h : nameAndValue? arguments = some (name, value)) :
      Builds arguments .sectionStart (.sectionStart name value)
  | slot {name : Text} {value : Option Text}
      (h : nameAndValue? arguments = some (name, value)) :
      Builds arguments .slot (.slot name value)
  | otherwise : Builds arguments .otherwise .otherwise
  | ifEnd : Builds arguments .ifEnd .ifEnd
  | loopEnd : Builds arguments .loopEnd .loopEnd
  | sectionEnd : Builds arguments .sectionEnd .sectionEnd

theorem builds_of_directive? {k : Keyword} {arguments : Text} {d : Directive}
    (h : k.directive? arguments = some d) : Builds arguments k d := by
  cases k with
  | ifStart =>
      simp only [directive?] at h
      split at h
      · next e he =>
        cases h
        exact .ifStart he
      · cases h
  | elseIf =>
      simp only [directive?] at h
      split at h
      · next e he =>
        cases h
        exact .elseIf he
      · cases h
  | loopStart =>
      simp only [directive?] at h
      split at h
      · next head hh =>
        cases h
        exact .loopStart hh
      · cases h
  | embed =>
      obtain ⟨name, hn, rfl⟩ := Option.map_eq_some_iff.1 h
      exact .embed hn
  | inherit =>
      obtain ⟨name, hn, rfl⟩ := Option.map_eq_some_iff.1 h
      exact .inherit hn
  | sectionStart =>
      obtain ⟨⟨name, value⟩, hn, rfl⟩ := Option.map_eq_some_iff.1 h
      exact .sectionStart hn
  | slot =>
      obtain ⟨⟨name, value⟩, hn, rfl⟩ := Option.map_eq_some_iff.1 h
      exact .slot hn
  | otherwise =>
      cases h
      exact .otherwise
  | ifEnd =>
      cases h
      exact .ifEnd
  | loopEnd =>
      cases h
      exact .loopEnd
  | sectionEnd =>
      cases h
      exact .sectionEnd

theorem directive?_eq_some_iff {k : Keyword} {arguments : Text} {d : Directive} :
    k.directive? arguments = some d ↔ Builds arguments k d := by
  constructor
  · exact builds_of_directive?
  · intro h
    cases h with
    | ifStart h | elseIf h | loopStart h | embed h | inherit h | sectionStart h | slot h =>
        simp [directive?, h]
    | otherwise | ifEnd | loopEnd | sectionEnd => rfl

end Keyword

open Quoting

theorem Alike.trim {t u : Text} (h : Alike t u) (ht : outside.run t = .outside)
    (hu : outside.run u = .outside) : Alike (Text.trim t) (Text.trim u) := by
  have hstart := h.trimStart
  unfold Alike at hstart ⊢
  rw [Text.trim, Text.trim, outline_trimEnd (run_trimStart ht), outline_trimEnd (run_trimStart hu),
    hstart]

/-! ## Lists of literals -/

abbrev AreAlike : List Text → List Text → Prop := List.Forall₂ fun t u => t = [] ↔ u = []

theorem items?_of_alike {t u : Text} {items : List Text} (h : Alike t u)
    (ht : Quoted.items? t = some items) :
    ∃ items', Quoted.items? u = some items' ∧ AreAlike items items' := by
  induction items generalizing t u with
  | nil =>
      obtain ⟨item, rest, -, ⟨-, hitems⟩ | ⟨more, others, -, -, hitems⟩⟩ :=
        Quoted.items?_eq_some_iff.1 ht
      · cases hitems
      · cases hitems
  | cons first others ih =>
      obtain ⟨item, rest, hr, hmid⟩ := Quoted.items?_eq_some_iff.1 ht
      obtain ⟨item', rest', hr', hempty, hrest⟩ := h.read?.of_some hr
      rcases hmid with ⟨hnil, hitems⟩ | ⟨more, others', hcomma, ho, hitems⟩
      · cases hitems
        have hnil' := hrest.trimStart.eq_nil_iff.1 hnil
        exact ⟨[item'], Quoted.items?_eq_some_iff.2 ⟨item', rest', hr', Or.inl ⟨hnil', rfl⟩⟩,
          .cons hempty .nil⟩
      · cases hitems
        have hafter := hrest.trimStart
        rw [hcomma] at hafter
        obtain ⟨more', hcomma', -⟩ := hafter.cons_left
        rw [hcomma'] at hafter
        have hmore := ((Alike.cons_iff rfl).1 hafter).trimStart
        obtain ⟨items', hi, hall⟩ := ih hmore ho
        exact ⟨item' :: items', Quoted.items?_eq_some_iff.2
          ⟨item', rest', hr', Or.inr ⟨more', items', hcomma', hi, rfl⟩⟩, .cons hempty hall⟩

theorem list?_of_alike {t u : Text} {items : List Text} (h : Alike t u)
    (ht : Quoted.list? t = some items) :
    ∃ items', Quoted.list? u = some items' ∧ AreAlike items items' := by
  have hstart := h.trimStart
  unfold Quoted.list? at ht ⊢
  split at ht
  · next hnil =>
    cases ht
    rw [if_pos (hstart.eq_nil_iff.1 hnil)]
    exact ⟨[], rfl, .nil⟩
  · next hne =>
    rw [if_neg fun hnil => hne (hstart.eq_nil_iff.2 hnil)]
    exact items?_of_alike hstart ht

theorem name?_of_alike {t u name : Text} (h : Alike t u) (ht : Keyword.name? t = some name) :
    ∃ name', Keyword.name? u = some name' := by
  unfold Keyword.name? at ht ⊢
  split at ht
  · next first hlist =>
    obtain ⟨items, hu, hall⟩ := list?_of_alike h hlist
    obtain ⟨name', rest, hname, hrest, rfl⟩ := List.forall₂_cons_left_iff.1 hall
    obtain rfl := List.forall₂_nil_left_iff.1 hrest
    rw [hu]
    split at ht
    · cases ht
    · next hne => exact ⟨name', if_neg (mt hname.2 hne)⟩
  · cases ht

theorem nameAndValue?_of_alike {t u : Text} (h : Alike t u) {pair : Text × Option Text}
    (ht : Keyword.nameAndValue? t = some pair) : ∃ pair', Keyword.nameAndValue? u = some pair' := by
  unfold Keyword.nameAndValue? at ht ⊢
  split at ht
  · next first hlist =>
    obtain ⟨items, hu, hall⟩ := list?_of_alike h hlist
    obtain ⟨name', rest, hname, hrest, rfl⟩ := List.forall₂_cons_left_iff.1 hall
    obtain rfl := List.forall₂_nil_left_iff.1 hrest
    rw [hu]
    split at ht
    · cases ht
    · next hne => exact ⟨(name', none), if_neg (mt hname.2 hne)⟩
  · next first second hlist =>
    obtain ⟨items, hu, hall⟩ := list?_of_alike h hlist
    obtain ⟨name', rest, hname, hrest, rfl⟩ := List.forall₂_cons_left_iff.1 hall
    obtain ⟨value', last, -, hlast, rfl⟩ := List.forall₂_cons_left_iff.1 hrest
    obtain rfl := List.forall₂_nil_left_iff.1 hlast
    rw [hu]
    split at ht
    · cases ht
    · next hne => exact ⟨(name', some value'), if_neg (mt hname.2 hne)⟩
  · cases ht

/-! ## Interpolations and loop heads -/

theorem Alike.after?_of_some {t u mark rest : Text} (h : Alike t u)
    (hm : ∀ c ∈ mark, Quoted.isQuote c = false) (ht : Text.after? mark t = some rest) :
    ∃ rest', Text.after? mark u = some rest' ∧ Alike rest rest' := by
  have hrel := h.after? hm
  rw [ht] at hrel
  cases hu : Text.after? mark u with
  | none =>
      rw [hu] at hrel
      cases hrel
  | some rest' =>
      rw [hu] at hrel
      cases hrel with
      | some hrest => exact ⟨rest', rfl, hrest⟩

theorem interpolation_of_alike {t u : Text} {i : Interpolation}
    (h : Alike (Text.trim t) (Text.trim u)) (ht : Interpolation.parse t = .ok i) :
    ∃ i', Interpolation.parse u = .ok i' := by
  obtain ⟨var, rest, hv, hmid⟩ := Interpolation.parse_eq_ok_iff.1 ht
  obtain ⟨var', rest', hv', -, hrest⟩ := h.scanVariable.of_some hv
  rcases hmid with ⟨hnil, -⟩ | ⟨fallback, e, hf, he, -⟩
  · have hnil' := hrest.trimStart.eq_nil_iff.1 hnil
    exact ⟨_, Interpolation.parse_eq_ok_iff.2 ⟨var', rest', hv', Or.inl ⟨hnil', rfl⟩⟩⟩
  · obtain ⟨fallback', hf', hlike⟩ := hrest.trimStart.after?_of_some (by simp [Quoted.isQuote]) hf
    obtain ⟨e', he'⟩ := Expr.parse_of_alike hlike he
    exact ⟨_, Interpolation.parse_eq_ok_iff.2
      ⟨var', rest', hv', Or.inr ⟨fallback', e', hf', he', rfl⟩⟩⟩

theorem binding_of_alike {t u name rest : Text} (h : Alike t u)
    (ht : LoopHead.binding t = .ok (name, rest)) :
    ∃ rest', LoopHead.binding u = .ok (name, rest') ∧ Alike rest rest' := by
  obtain ⟨var, hv, hplain, hname⟩ := LoopHead.binding_eq_ok_iff.1 ht
  obtain ⟨var', rest', hv', ⟨hroot, hplain'⟩, hrest⟩ := h.scanVariable.of_some hv
  rw [hplain] at hplain'
  rw [hname] at hroot
  exact ⟨rest', LoopHead.binding_eq_ok_iff.2 ⟨var', hv', hplain'.symm, hroot.symm⟩, hrest⟩

theorem afterAs?_of_alike {t u rest : Text} (h : Alike t u)
    (ht : LoopHead.afterAs? t = some rest) :
    ∃ rest', LoopHead.afterAs? u = some rest' ∧ Alike rest rest' := by
  obtain ⟨c, more, ha, hc, rfl⟩ := LoopHead.afterAs?_eq_some_iff.1 ht
  obtain ⟨after, ha', hlike⟩ := h.after?_of_some (by simp [Quoted.isQuote]) ha
  obtain ⟨more', rfl, -⟩ := hlike.cons_left
  have hq := Alike.isQuote_of_class (p := Text.isWhite) (by decide) (by decide) hc
  exact ⟨_, LoopHead.afterAs?_eq_some_iff.2 ⟨c, more', ha', hc, rfl⟩,
    ((Alike.cons_iff hq).1 hlike).trimStart⟩

theorem loopHead_of_alike {t u : Text} {head : LoopHead} (h : Alike (Text.trim t) (Text.trim u))
    (ht : LoopHead.parse t = .ok head) : ∃ head', LoopHead.parse u = .ok head' := by
  obtain ⟨source, rest, after, hs, ha, first, mid, hfirst, hmid⟩ := LoopHead.parse_eq_ok_iff.1 ht
  obtain ⟨source', rest', hs', -, hrest⟩ := h.scanVariable.of_some hs
  obtain ⟨after', ha', hafter⟩ := afterAs?_of_alike hrest.trimStart ha
  obtain ⟨mid', hfirst', hmidlike⟩ := binding_of_alike hafter hfirst
  have hread : ∀ head', _ → ∃ head', LoopHead.parse u = .ok head' := fun head' hb =>
    ⟨head', LoopHead.parse_eq_ok_iff.2
      ⟨source', rest', after', hs', ha', first, mid', hfirst', hb⟩⟩
  rcases hmid with ⟨hnil, -⟩ | ⟨more, second, last, hm, hsecond, hlast, -⟩
  · exact hread _ (Or.inl ⟨hmidlike.trimStart.eq_nil_iff.1 hnil, rfl⟩)
  · obtain ⟨more', hm', hmore⟩ := hmidlike.trimStart.after?_of_some (by simp [Quoted.isQuote]) hm
    obtain ⟨last', hsecond', hlastlike⟩ := binding_of_alike hmore.trimStart hsecond
    have hlast' : Text.trim last' = [] := by
      rw [Text.trim_eq_nil_iff] at hlast ⊢
      exact hlastlike.trimStart.eq_nil_iff.1 hlast
    exact hread _ (Or.inr ⟨more', second, last', hm', hsecond', hlast', rfl⟩)

/-! ## Directives -/

theorem echo?_of_alike {t u : Text} (h : Alike t u) (ht : outside.run t = .outside)
    (hu : outside.run u = .outside) {d : Directive} (hd : Directive.echo? t = some d) :
    ∃ d', Directive.echo? u = some d' := by
  obtain ⟨-, i, hi⟩ := Directive.echo?_eq_some_iff.1 hd
  exact ⟨_, Directive.echo?_eq_some_iff.2 ⟨rfl, interpolation_of_alike (h.trim ht hu) hi⟩⟩

theorem directive?_of_alike {k : Keyword} {t u : Text} (h : Alike t u)
    (ht : outside.run t = .outside) (hu : outside.run u = .outside) {d : Directive}
    (hd : k.directive? t = some d) : ∃ d', k.directive? u = some d' := by
  have htrim := h.trim ht hu
  have hagain : Alike (Text.trim (Text.trim t)) (Text.trim (Text.trim u)) :=
    htrim.trim (run_trim ht) (run_trim hu)
  simp only [Keyword.directive?_eq_some_iff] at hd ⊢
  cases hd with
  | ifStart he =>
      obtain ⟨e', he'⟩ := Expr.parse_of_alike htrim he
      exact ⟨_, .ifStart he'⟩
  | elseIf he =>
      obtain ⟨e', he'⟩ := Expr.parse_of_alike htrim he
      exact ⟨_, .elseIf he'⟩
  | loopStart hh =>
      obtain ⟨head', hh'⟩ := loopHead_of_alike hagain hh
      exact ⟨_, .loopStart hh'⟩
  | embed hn =>
      obtain ⟨name', hn'⟩ := name?_of_alike h hn
      exact ⟨_, .embed hn'⟩
  | inherit hn =>
      obtain ⟨name', hn'⟩ := name?_of_alike h hn
      exact ⟨_, .inherit hn'⟩
  | sectionStart hn =>
      obtain ⟨⟨name', value'⟩, hn'⟩ := nameAndValue?_of_alike h hn
      exact ⟨_, .sectionStart hn'⟩
  | slot hn =>
      obtain ⟨⟨name', value'⟩, hn'⟩ := nameAndValue?_of_alike h hn
      exact ⟨_, .slot hn'⟩
  | otherwise => exact ⟨_, .otherwise⟩
  | ifEnd => exact ⟨_, .ifEnd⟩
  | loopEnd => exact ⟨_, .loopEnd⟩
  | sectionEnd => exact ⟨_, .sectionEnd⟩

/-! ## Question marks -/

theorem paired_of_skips_nil {t : Text} (h : Skips t []) : Paired (outside.outline t) :=
  h.paired .nil

theorem paired_of_parse {t : Text} {e : Expr} (h : Expr.parse t = .ok e) :
    Paired (outside.outline t) := by
  obtain ⟨tokens, hlex, he⟩ := Expr.parse_eq_ok_iff.1 h
  exact paired_of_lex hlex he.starts.2

theorem paired_of_interpolation {t : Text} {i : Interpolation}
    (h : Interpolation.parse t = .ok i) : Paired (outside.outline (Text.trim t)) := by
  obtain ⟨var, rest, hv, hmid⟩ := Interpolation.parse_eq_ok_iff.1 h
  have hskips := (Skips.of_variable hv).trans (Skips.of_trimStart rest)
  rcases hmid with ⟨hnil, -⟩ | ⟨fallback, e, hf, he, -⟩
  · rw [hnil] at hskips
    exact paired_of_skips_nil hskips
  · obtain ⟨tokens, hlex, hexpr⟩ := Expr.parse_eq_ok_iff.1 he
    have hhead := head?_ne_of_isStarted hlex hexpr.starts.1
    rw [← head?_outline] at hhead
    apply hskips.paired
    rw [Text.after?_eq_some_iff.1 hf]
    exact .pair (paired_of_lex hlex hexpr.starts.2) hhead

theorem Skips.of_binding {t name rest : Text} (h : LoopHead.binding t = .ok (name, rest)) :
    Skips t rest := by
  obtain ⟨var, hv, -, -⟩ := LoopHead.binding_eq_ok_iff.1 h
  exact of_variable hv

theorem paired_of_loopHead {t : Text} {head : LoopHead} (h : LoopHead.parse t = .ok head) :
    Paired (outside.outline (Text.trim t)) := by
  obtain ⟨source, rest, after, hs, ha, first, mid, hfirst, hmid⟩ := LoopHead.parse_eq_ok_iff.1 h
  obtain ⟨c, more, ha', hc, rfl⟩ := LoopHead.afterAs?_eq_some_iff.1 ha
  have hsource := (Skips.of_variable hs).trans (Skips.of_trimStart rest)
  have has := hsource.trans (Skips.of_after? ha' (by simp [Quoted.isQuote]))
  have hwhite : Text.trimStart (c :: more) = Text.trimStart more := by
    rw [Text.trimStart, List.dropWhile_cons_of_pos hc]
    rfl
  have hlead := has.trans (Skips.of_trimStart (c :: more))
  rw [hwhite] at hlead
  have hbound := (hlead.trans (Skips.of_binding hfirst)).trans (Skips.of_trimStart mid)
  rcases hmid with ⟨hnil, -⟩ | ⟨next, second, last, hn, hsecond, hlast, -⟩
  · rw [hnil] at hbound
    exact paired_of_skips_nil hbound
  · have hcomma := hbound.trans (Skips.of_after? hn (by simp [Quoted.isQuote]))
    have hnext := hcomma.trans (Skips.of_trimStart next)
    have hend := (hnext.trans (Skips.of_binding hsecond)).trans (Skips.of_trimStart last)
    rw [Text.trim_eq_nil_iff.1 hlast] at hend
    exact paired_of_skips_nil hend

theorem Skips.of_items? {t : Text} {items : List Text} (h : Quoted.items? t = some items) :
    Skips t [] := by
  induction items generalizing t with
  | nil =>
      obtain ⟨item, rest, -, ⟨-, hitems⟩ | ⟨more, others, -, -, hitems⟩⟩ :=
        Quoted.items?_eq_some_iff.1 h
      · cases hitems
      · cases hitems
  | cons first others ih =>
      obtain ⟨item, rest, hr, hmid⟩ := Quoted.items?_eq_some_iff.1 h
      have hitem := (of_read? hr).trans (of_trimStart rest)
      rcases hmid with ⟨hnil, -⟩ | ⟨more, others', hcomma, ho, hitems⟩
      · rw [hnil] at hitem
        exact hitem
      · cases hitems
        rw [hcomma] at hitem
        have hmore : Skips (',' :: more) more := of_char rfl (by decide) more
        exact ((hitem.trans hmore).trans (of_trimStart more)).trans (ih ho)

theorem paired_of_list? {t : Text} {items : List Text} (h : Quoted.list? t = some items) :
    Paired (outside.outline t) := by
  have hstart := Skips.of_trimStart t
  unfold Quoted.list? at h
  split at h
  · next hnil =>
    rw [hnil] at hstart
    exact paired_of_skips_nil hstart
  · exact paired_of_skips_nil (hstart.trans (Skips.of_items? h))

theorem paired_of_name? {t name : Text} (h : Keyword.name? t = some name) :
    Paired (outside.outline t) := by
  unfold Keyword.name? at h
  split at h
  · next hlist => exact paired_of_list? hlist
  · cases h

theorem paired_of_nameAndValue? {t : Text} {pair : Text × Option Text}
    (h : Keyword.nameAndValue? t = some pair) : Paired (outside.outline t) := by
  unfold Keyword.nameAndValue? at h
  split at h
  · next hlist => exact paired_of_list? hlist
  · next hlist => exact paired_of_list? hlist
  · cases h

theorem paired_of_trim {t : Text} (ht : outside.run t = .outside)
    (h : Paired (outside.outline (Text.trim t))) : Paired (outside.outline t) := by
  obtain ⟨lead, tail, hlead, htail, hout⟩ := exists_outline_trim ht
  have hblank : ∀ u, Text.IsBlank u → '?' ∉ u ∧ u.head? ≠ some '>' := by
    intro u hu
    constructor
    · intro hmem
      cases hu '?' hmem
    · intro hhead
      cases hu '>' (List.mem_of_mem_head? hhead)
  rw [hout, List.append_assoc]
  exact (h.append_tail (hblank tail htail).1 (hblank tail htail).2).append (hblank lead hlead).1

theorem paired_of_echo? {t : Text} {d : Directive} (ht : outside.run t = .outside)
    (h : Directive.echo? t = some d) : Paired (outside.outline t) := by
  obtain ⟨-, i, hi⟩ := Directive.echo?_eq_some_iff.1 h
  exact paired_of_trim ht (paired_of_interpolation hi)

theorem paired_trim_of_loopHead {t : Text} {head : LoopHead}
    (h : LoopHead.parse (Text.trim t) = .ok head) : Paired (outside.outline (Text.trim t)) := by
  have hpaired := paired_of_loopHead h
  rwa [Text.trim_eq_self (Text.isTrimmed_trim t)] at hpaired

theorem paired_of_directive? {k : Keyword} {t : Text} {d : Directive}
    (ht : outside.run t = .outside) (hk : k.takesArguments = true)
    (h : k.directive? t = some d) : Paired (outside.outline t) := by
  cases Keyword.directive?_eq_some_iff.1 h with
  | ifStart he | elseIf he => exact paired_of_trim ht (paired_of_parse he)
  | loopStart hh => exact paired_of_trim ht (paired_trim_of_loopHead hh)
  | embed hn | inherit hn => exact paired_of_name? hn
  | sectionStart hn | slot hn => exact paired_of_nameAndValue? hn
  | otherwise | ifEnd | loopEnd | sectionEnd => cases hk

end Stencil.Template
