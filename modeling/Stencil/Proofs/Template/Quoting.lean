import Stencil.Template.Scan

/-!
# Outlines

All scanners follow quoted literals in the same way.  What they share is where
a scanner stands with regard to literals, and the outline of a text: the text
with everything between quotes taken out.  An empty literal can be told from
any other in an outline, and nothing else that is between quotes can.
-/

namespace Stencil.Template

/-- Where a scanner stands: outside of literals, or in one that `quote` has opened, namely
at its start, further in, or behind a backslash. -/
inductive Quoting where
  | outside
  | opened (quote : Char)
  | inside (quote : Char)
  | escaping (quote : Char)
deriving DecidableEq, Repr

namespace Quoting

def within (quote c : Char) : Quoting :=
  if c = '\\' then .escaping quote else if c = quote then .outside else .inside quote

def next : Quoting → Char → Quoting
  | .outside, c => if Quoted.isQuote c then .opened c else .outside
  | .opened quote, c => within quote c
  | .inside quote, c => within quote c
  | .escaping quote, _ => .inside quote

def run (s : Quoting) (t : Text) : Quoting := t.foldl next s

@[simp] theorem run_nil (s : Quoting) : s.run [] = s := rfl

@[simp] theorem run_cons (s : Quoting) (c : Char) (t : Text) :
    s.run (c :: t) = (s.next c).run t := rfl

@[simp] theorem run_append (s : Quoting) (t u : Text) : s.run (t ++ u) = (s.run t).run u :=
  List.foldl_append

/-- Stands for what a literal holds. -/
def filler : Char := '\\'

def shown : Quoting → Char → Text
  | .outside, c => [c]
  | .opened quote, c => if within quote c = .outside then [c] else [filler]
  | .inside quote, c => if within quote c = .outside then [c] else []
  | .escaping _, _ => []

def outline : Quoting → Text → Text
  | _, [] => []
  | s, c :: t => s.shown c ++ outline (s.next c) t

@[simp] theorem outline_nil (s : Quoting) : s.outline [] = [] := by
  cases s <;> rfl

theorem outline_cons (s : Quoting) (c : Char) (t : Text) :
    s.outline (c :: t) = s.shown c ++ (s.next c).outline t := by
  cases s <;> rfl

theorem outline_append (s : Quoting) (t u : Text) :
    s.outline (t ++ u) = s.outline t ++ (s.run t).outline u := by
  induction t generalizing s with
  | nil => simp
  | cons c t ih => simp [outline_cons, ih]

/-! ## Plain text -/

def IsPlain (t : Text) : Prop := ∀ c ∈ t, Quoted.isQuote c = false ∧ c ≠ '\\'

theorem IsPlain.append {t u : Text} (ht : IsPlain t) (hu : IsPlain u) : IsPlain (t ++ u) := by
  intro c hc
  rcases List.mem_append.1 hc with hc | hc
  · exact ht c hc
  · exact hu c hc

theorem run_outside_of_isPlain {t : Text} (h : ∀ c ∈ t, Quoted.isQuote c = false) :
    outside.run t = outside := by
  induction t with
  | nil => rfl
  | cons c t ih =>
      have hc := h c List.mem_cons_self
      simp only [run_cons, next, hc]
      exact ih fun d hd => h d (List.mem_cons_of_mem _ hd)

theorem outline_outside_of_isPlain {t : Text} (h : ∀ c ∈ t, Quoted.isQuote c = false) :
    outside.outline t = t := by
  induction t with
  | nil => rfl
  | cons c t ih =>
      have hc := h c List.mem_cons_self
      simp only [outline_cons, shown, next, hc]
      simpa using ih fun d hd => h d (List.mem_cons_of_mem _ hd)

theorem within_of_isPlain {quote c : Char} (hq : Quoted.isQuote quote = true)
    (hc : Quoted.isQuote c = false ∧ c ≠ '\\') : within quote c = .inside quote := by
  have hne : c ≠ quote := by
    rintro rfl
    rw [hc.1] at hq
    cases hq
  simp [within, hc.2, hne]

theorem run_inside_of_isPlain {quote : Char} {t : Text} (hq : Quoted.isQuote quote = true)
    (ht : IsPlain t) : (inside quote).run t = inside quote := by
  induction t with
  | nil => rfl
  | cons c t ih =>
      rw [run_cons, next, within_of_isPlain hq (ht c List.mem_cons_self)]
      exact ih fun d hd => ht d (List.mem_cons_of_mem _ hd)

theorem outline_inside_of_isPlain {quote : Char} {t : Text} (hq : Quoted.isQuote quote = true)
    (ht : IsPlain t) : (inside quote).outline t = [] := by
  induction t with
  | nil => rfl
  | cons c t ih =>
      have hw := within_of_isPlain hq (ht c List.mem_cons_self)
      rw [outline_cons, shown, next, hw]
      simpa using ih fun d hd => ht d (List.mem_cons_of_mem _ hd)

/-! ## Literals -/

theorem within_backslash (quote : Char) : within quote '\\' = .escaping quote := rfl

theorem ne_backslash_of_isQuote {quote : Char} (hq : Quoted.isQuote quote = true) :
    quote ≠ '\\' := by
  rintro rfl
  cases hq

theorem within_self {quote : Char} (hq : Quoted.isQuote quote = true) :
    within quote quote = .outside := by
  simp [within, ne_backslash_of_isQuote hq]

theorem outline_inside {quote : Char} (hq : Quoted.isQuote quote = true) (t : Text) :
    (inside quote).outline t =
      match Quoted.readBody? quote t with
      | some (_, rest) => quote :: outside.outline rest
      | none => [] := by
  fun_induction Quoted.readBody? quote t with
  | case1 => rfl
  | case2 c rest ih =>
      simp only [outline_cons, shown, next, within_backslash, reduceCtorEq, if_false,
        List.nil_append, ih]
      cases Quoted.readBody? quote rest <;> rfl
  | case3 rest => simp [outline_cons, shown, next, within_self hq]
  | case4 c rest hshape hc ih =>
      by_cases hb : c = '\\'
      · subst hb
        have hrest : rest = [] := by
          cases rest with
          | nil => rfl
          | cons d rest => exact (hshape d rest rfl rfl).elim
        subst hrest
        simp [outline_cons, shown, within, Quoted.readBody?]
      · have hw : within quote c = .inside quote := by simp [within, hb, hc]
        simp only [outline_cons, shown, next, hw, reduceCtorEq, if_false, List.nil_append, ih]
        cases Quoted.readBody? quote rest <;> rfl

theorem read?_cons (quote : Char) (t : Text) :
    Quoted.read? (quote :: t) =
      if Quoted.isQuote quote then Quoted.readBody? quote t else none := rfl

theorem readBody?_eq_nil_iff {quote : Char} (hq : Quoted.isQuote quote = true) {c : Char}
    {t text rest : Text} (h : Quoted.readBody? quote (c :: t) = some (text, rest)) :
    text = [] ↔ c = quote := by
  have hb := ne_backslash_of_isQuote hq
  unfold Quoted.readBody? at h
  split at h
  · next hc => cases hc
  · next d r hc =>
    simp only [List.cons.injEq] at hc
    obtain ⟨⟨text', rest'⟩, -, he⟩ := Option.map_eq_some_iff.1 h
    simp only [Prod.mk.injEq] at he
    have hne : Quoted.escaped d ≠ [] := by
      unfold Quoted.escaped
      split
      · simp
      · split
        · simp
        · split <;> simp
    rw [← he.1, hc.1]
    simp [hne, Ne.symm hb]
  · next d r _ hc =>
    simp only [List.cons.injEq] at hc
    rw [hc.1]
    split at h
    · next hd =>
      simp only [Option.some.injEq, Prod.mk.injEq] at h
      simp [← h.1, hd]
    · next hd =>
      obtain ⟨⟨text', rest'⟩, -, he⟩ := Option.map_eq_some_iff.1 h
      simp only [Prod.mk.injEq] at he
      simp [← he.1, hd]

theorem outline_opened {quote : Char} (hq : Quoted.isQuote quote = true) (t : Text) :
    (opened quote).outline t =
      match Quoted.readBody? quote t with
      | some (text, rest) =>
        (if text = [] then [] else [filler]) ++ quote :: outside.outline rest
      | none => if t = [] then [] else [filler] := by
  cases t with
  | nil => rfl
  | cons c t =>
      have hfirst : (opened quote).outline (c :: t) =
          (if c = quote then [] else [filler]) ++ (inside quote).outline (c :: t) := by
        by_cases hc : c = quote
        · simp [outline_cons, shown, next, hc, within_self hq]
        · by_cases hb : c = '\\'
          · subst hb
            simp [outline_cons, shown, next, within, hc]
          · simp [outline_cons, shown, next, within, hc, hb]
      rw [hfirst, outline_inside hq]
      cases hbody : Quoted.readBody? quote (c :: t) with
      | none =>
          have hc : c ≠ quote := by
            rintro rfl
            have hb := ne_backslash_of_isQuote hq
            unfold Quoted.readBody? at hbody
            split at hbody
            · next h => cases h
            · next h =>
              simp only [List.cons.injEq] at h
              exact hb h.1
            · next h =>
              simp only [List.cons.injEq] at h
              simp [h.1] at hbody
          simp [hc]
      | some pair =>
          obtain ⟨text, rest⟩ := pair
          simp [readBody?_eq_nil_iff hq hbody]

theorem outline_of_read? {t text rest : Text} (h : Quoted.read? t = some (text, rest)) :
    ∃ quote, Quoted.isQuote quote = true ∧ outside.outline t =
      quote :: (if text = [] then [] else [filler]) ++ quote :: outside.outline rest := by
  cases t with
  | nil => cases h
  | cons quote t =>
      rw [read?_cons] at h
      split at h
      · next hq =>
        refine ⟨quote, hq, ?_⟩
        simp only [outline_cons, shown, next, hq, if_true, outline_opened hq, h]
        simp
      · cases h

theorem run_of_readBody? {quote : Char} (hq : Quoted.isQuote quote = true) {t text rest : Text}
    (h : Quoted.readBody? quote t = some (text, rest)) :
    ∃ body, t = body ++ rest ∧ (inside quote).run body = outside := by
  fun_induction Quoted.readBody? quote t generalizing text with
  | case1 => cases h
  | case2 c r ih =>
      obtain ⟨⟨more, rest'⟩, hr, he⟩ := Option.map_eq_some_iff.1 h
      simp only [Prod.mk.injEq] at he
      obtain ⟨-, rfl⟩ := he
      obtain ⟨body, rfl, hbody⟩ := ih hr
      exact ⟨'\\' :: c :: body, rfl, by simpa [next, within] using hbody⟩
  | case3 r =>
      simp only [Option.some.injEq, Prod.mk.injEq] at h
      obtain ⟨-, rfl⟩ := h
      exact ⟨[quote], rfl, by simp [next, within_self hq]⟩
  | case4 c r hshape hc ih =>
      obtain ⟨⟨more, rest'⟩, hr, he⟩ := Option.map_eq_some_iff.1 h
      simp only [Prod.mk.injEq] at he
      obtain ⟨-, rfl⟩ := he
      obtain ⟨body, rfl, hbody⟩ := ih hr
      have hb : c ≠ '\\' := by
        rintro rfl
        cases hbr : body ++ rest' with
        | nil =>
            rw [hbr] at hr
            cases hr
        | cons d r => exact hshape d r rfl hbr
      exact ⟨c :: body, rfl, by simpa [next, within, hb, hc] using hbody⟩

theorem run_of_read? {t text rest : Text} (h : Quoted.read? t = some (text, rest)) :
    ∃ literal, t = literal ++ rest ∧ outside.run literal = outside := by
  cases t with
  | nil => cases h
  | cons quote t =>
      rw [read?_cons] at h
      split at h
      · next hq =>
        obtain ⟨body, rfl, hbody⟩ := run_of_readBody? hq h
        refine ⟨quote :: body, rfl, ?_⟩
        cases body with
        | nil => cases hbody
        | cons c body =>
            simp only [run_cons, next, hq, if_true]
            exact hbody
      · cases h

theorem read?_quote (t : Text) : Quoted.read? (Quoted.quote t) = some (t, []) := by
  simpa using Quoted.read?_quote_append t []

theorem run_quote (t : Text) : outside.run (Quoted.quote t) = outside := by
  obtain ⟨literal, hliteral, hrun⟩ := run_of_read? (read?_quote t)
  rw [hliteral, List.append_nil]
  exact hrun

end Quoting

/-! ## Alike texts -/

/-- Texts that differ at most in what stands between quotes. -/
def Alike (t u : Text) : Prop := Quoting.outside.outline t = Quoting.outside.outline u

namespace Alike

open Quoting

theorem symm {t u : Text} (h : Alike t u) : Alike u t := Eq.symm h

theorem nil_left {u : Text} (h : Alike [] u) : u = [] := by
  cases u with
  | nil => rfl
  | cons c u => simp [Alike, outline_cons, shown] at h

theorem cons_left {c : Char} {t u : Text} (h : Alike (c :: t) u) :
    ∃ u', u = c :: u' ∧ (outside.next c).outline t = (outside.next c).outline u' := by
  cases u with
  | nil => simp [Alike, outline_cons, shown] at h
  | cons d u =>
      simp only [Alike, outline_cons, shown, List.cons_append, List.nil_append,
        List.cons.injEq] at h
      obtain ⟨rfl, h⟩ := h
      exact ⟨u, rfl, h⟩

theorem cons_iff {c : Char} (hc : Quoted.isQuote c = false) {t u : Text} :
    Alike (c :: t) (c :: u) ↔ Alike t u := by
  simp [Alike, outline_cons, shown, next, hc]

theorem eq_nil_iff {t u : Text} (h : Alike t u) : t = [] ↔ u = [] := by
  constructor
  · rintro rfl
    exact h.nil_left
  · rintro rfl
    exact h.symm.nil_left

/-- What two scans of alike texts find: both nothing, or `related` results and alike rests. -/
def Scans {α β : Type} (related : α → β → Prop) (s : Option (α × Text)) (s' : Option (β × Text)) :
    Prop :=
  match s, s' with
  | none, none => True
  | some (a, rest), some (b, rest') => related a b ∧ Alike rest rest'
  | _, _ => False

theorem read? {t u : Text} (h : Alike t u) :
    Scans (fun a b => a = [] ↔ b = []) (Quoted.read? t) (Quoted.read? u) := by
  cases t with
  | nil =>
      obtain rfl := h.nil_left
      trivial
  | cons c t =>
      obtain ⟨u, rfl, hn⟩ := h.cons_left
      rw [read?_cons, read?_cons]
      split
      · next hq =>
        simp only [next, hq, if_true, outline_opened hq] at hn
        have hf : filler ≠ c := (ne_backslash_of_isQuote hq).symm
        cases ht : Quoted.readBody? c t with
        | none =>
            cases hu : Quoted.readBody? c u with
            | none => trivial
            | some pair =>
                rw [ht, hu] at hn
                by_cases ht' : t = [] <;> by_cases hp : pair.1 = [] <;> simp [ht', hp, hf] at hn
        | some pair =>
            cases hu : Quoted.readBody? c u with
            | none =>
                rw [ht, hu] at hn
                by_cases hu' : u = [] <;> by_cases hp : pair.1 = [] <;>
                  simp [hu', hp, hf.symm] at hn
            | some pair' =>
                rw [ht, hu] at hn
                by_cases hp : pair.1 = [] <;> by_cases hp' : pair'.1 = [] <;>
                  simp_all [Scans, Alike]
      · trivial

end Alike

end Stencil.Template
