import Stencil.Proofs.Template.Recompiling

/-!
# Compiling what is compiled

Each directive or comment that compilation takes away costs a text some of the
characters that such fragments start with, so only texts that consist of what is
copied stay as they are.  A compiled text is one of them unless its source has a
comment, or a name that is written in another way.
-/

namespace Stencil.Template

open Fragment

/-! ## Characters that open fragments -/

def weight (t : Text) : Nat := t.countP fun c => c == '{' || c == '@'

@[simp] theorem weight_nil : weight [] = 0 := rfl

@[simp] theorem weight_append (t u : Text) : weight (t ++ u) = weight t + weight u :=
  List.countP_append

theorem weight_cons_of_ne {c : Char} (hbrace : c ≠ '{') (hat : c ≠ '@') (t : Text) :
    weight (c :: t) = weight t := by
  rw [weight, List.countP_cons_of_neg (by simp [hbrace, hat])]
  rfl

theorem weight_singleton_append (c : Char) (t : Text) : weight (c :: t) = weight [c] + weight t :=
  weight_append [c] t

theorem weight_trim_le (t : Text) : weight (Text.trim t) ≤ weight t := by
  obtain ⟨lead, tail, -, -, ht⟩ := Text.exists_eq_trim t
  have hweight := congrArg weight ht
  rw [weight_append, weight_append] at hweight
  omega

theorem weight_trimStart_le (t : Text) : weight (Text.trimStart t) ≤ weight t := by
  obtain ⟨lead, -, ht⟩ := Text.exists_eq_trimStart t
  have hweight := congrArg weight ht
  rw [weight_append] at hweight
  omega

theorem weight_quote (name : Text) : weight (Quoted.quote name) = weight name := by
  have hbody : weight (name.flatMap Quoted.quoteChar) = weight name := by
    induction name with
    | nil => rfl
    | cons c name ih =>
        have hc : weight (Quoted.quoteChar c) = weight [c] := by
          unfold Quoted.quoteChar
          split
          · exact weight_cons_of_ne (by decide) (by decide) [c]
          · rfl
        rw [List.flatMap_cons, weight_append, ih, hc, weight_singleton_append c name]
  rw [Quoted.quote, weight_append, weight_cons_of_ne (by decide) (by decide), hbody]
  rfl

theorem weight_escaped_le (c : Char) : weight (Quoted.escaped c) ≤ weight ['\\', c] := by
  unfold Quoted.escaped
  rw [weight_cons_of_ne (by decide) (by decide)]
  split
  · exact Nat.le_refl _
  · split
    · exact Nat.zero_le _
    · split
      · exact Nat.zero_le _
      · rw [weight_cons_of_ne (by decide) (by decide)]

theorem weight_readBody?_le {quote : Char} {t text rest : Text}
    (h : Quoted.readBody? quote t = some (text, rest)) : weight text + weight rest ≤ weight t := by
  fun_induction Quoted.readBody? quote t generalizing text with
  | case1 => cases h
  | case2 c r ih =>
      obtain ⟨⟨more, rest'⟩, hr, he⟩ := Option.map_eq_some_iff.1 h
      cases he
      have hrest := ih hr
      have hc := weight_escaped_le c
      have hsplit : weight ('\\' :: c :: r) = weight ['\\', c] + weight r :=
        weight_append ['\\', c] r
      rw [weight_append, hsplit]
      omega
  | case3 r =>
      cases h
      rw [weight_nil, weight_singleton_append quote rest]
      omega
  | case4 c r _ _ ih =>
      obtain ⟨⟨more, rest'⟩, hr, he⟩ := Option.map_eq_some_iff.1 h
      cases he
      have hrest := ih hr
      rw [weight_singleton_append c more, weight_singleton_append c r]
      omega

theorem weight_name?_le {arguments name : Text} (h : Keyword.name? arguments = some name) :
    weight name ≤ weight arguments := by
  have hitems : ∃ others, Quoted.items? (Text.trimStart arguments) = some (name :: others) := by
    unfold Keyword.name? Quoted.list? at h
    split at h
    · next hlist =>
      split at h
      · cases h
      · cases h
        split at hlist
        · cases hlist
        · exact ⟨[], hlist⟩
    · cases h
  obtain ⟨others, hothers⟩ := hitems
  obtain ⟨item, rest, hread, hmid⟩ := Quoted.items?_eq_some_iff.1 hothers
  obtain rfl : name = item := by
    rcases hmid with ⟨-, hname⟩ | ⟨_, _, -, -, hname⟩ <;> exact (List.cons.inj hname).1
  have hstart := weight_trimStart_le arguments
  cases ht : Text.trimStart arguments with
  | nil =>
      rw [ht] at hread
      cases hread
  | cons quote t =>
      rw [ht, Quoting.read?_cons] at hread
      split at hread
      · have hbody := weight_readBody?_le hread
        rw [ht, weight_singleton_append quote t] at hstart
        omega
      · cases hread

/-! ## What compilation takes away -/

theorem weight_instructionText (content : Text) :
    weight (instructionText content) = weight content := by
  have hclose : weight (' ' :: instructionClose) = 0 := by decide
  have hopen : weight (instructionOpen ++ [' ']) = 0 := by decide
  have htext : instructionText content =
      instructionOpen ++ [' '] ++ content ++ ' ' :: instructionClose := by
    simp [instructionText]
  rw [htext, weight_append, weight_append, hopen, hclose]
  omega

theorem weight_spelling (k : Keyword) : weight k.spelling = 0 := by
  cases k <;> rfl

theorem weight_withArgument (word argument : Text) :
    weight (withArgument word argument) = weight word + weight argument := by
  rw [withArgument, weight_append, weight_cons_of_ne (by decide) (by decide)]

theorem weight_content?_le {k : Keyword} {arguments content : Text} {d : Directive}
    (hd : k.directive? arguments = some d) (h : d.content? = some content) :
    weight content ≤ weight arguments := by
  have htrim := weight_trim_le arguments
  cases Keyword.directive?_eq_some_iff.1 hd with
  | ifStart _ | elseIf _ | loopStart _ =>
      cases h
      rw [weight_withArgument, weight_spelling]
      omega
  | embed hn =>
      cases h
      have hname := weight_name?_le hn
      rw [weight_withArgument, weight_spelling, weight_quote]
      omega
  | otherwise | ifEnd | loopEnd =>
      cases h
      rw [weight_spelling]
      exact Nat.zero_le _
  | inherit _ | sectionStart _ | slot _ | sectionEnd => cases h

theorem exists_content? {d : Directive} (h : d.isInheritance = false) :
    ∃ content, d.content? = some content := by
  rw [← Directive.content?_isNone, Option.isNone_eq_false_iff] at h
  exact Option.isSome_iff_exists.1 h

theorem weight_compiled_directive {d : Directive} {content raw : Text}
    (h : d.content? = some content) :
    weight (⟨.directive d, raw⟩ : Fragment).compiled = weight content := by
  have hcompiled : (⟨.directive d, raw⟩ : Fragment).compiled = instructionText content :=
    compiled_of_content? h
  rw [hcompiled, weight_instructionText]

theorem weight_compiled_lt_of_isCall {f : Fragment} {rest : Text} (h : IsCall f rest)
    (hkept : f.isKept = false) : weight f.compiled < weight f.raw := by
  have hat : weight ['@'] = 1 := rfl
  cases h with
  | @closed k gap arguments _ d hk hgap hd hends =>
      obtain ⟨content, hcontent⟩ := exists_content? (d := d) hkept
      have hle := weight_content?_le hd hcontent
      have hraw : '@' :: k.spelling ++ gap ++ '(' :: arguments ++ [')'] =
          ['@'] ++ (k.spelling ++ gap ++ ['(']) ++ arguments ++ [')'] := by simp
      rw [weight_compiled_directive hcontent]
      simp only [hraw, weight_append, hat]
      omega
  | @bare k _ d hk hd hrest =>
      obtain ⟨content, hcontent⟩ := exists_content? (d := d) hkept
      have hle := weight_content?_le hd hcontent
      rw [weight_compiled_directive hcontent]
      simp only [weight_singleton_append '@' k.spelling, weight_nil, hat] at hle ⊢
      omega

theorem weight_compiled_lt {f : Fragment} (h : f.IsFound) (hkept : f.isKept = false) :
    weight f.compiled < weight f.raw := by
  cases h with
  | instruction => cases hkept
  | comment body =>
      have hopen : weight commentOpen = 2 := by decide
      have hcompiled :
          (⟨.comment, commentOpen ++ body ++ commentClose⟩ : Fragment).compiled = [] := rfl
      rw [hcompiled, weight_nil]
      simp only [weight_append, hopen]
      omega
  | @echo argument d hd hends =>
      obtain ⟨rfl, -⟩ := Directive.echo?_eq_some_iff.1 hd
      have hopen : weight echoOpen = 2 := by decide
      have hword : weight ['e', 'c', 'h', 'o'] = 0 := by decide
      have htrim := weight_trim_le argument
      rw [compiled_of_content? rfl, weight_instructionText, weight_withArgument, hword]
      simp only [weight_append, hopen]
      omega
  | call hcall => exact weight_compiled_lt_of_isCall hcall hkept

theorem weight_compiled_le {f : Fragment} (h : f.kind = .text ∨ f.IsFound) :
    weight f.compiled ≤ weight f.raw := by
  cases hkept : f.isKept with
  | true => rw [compiled_of_isKept hkept]
  | false =>
      rcases h with htext | hfound
      · rw [isKept, htext] at hkept
        cases hkept
      · exact Nat.le_of_lt (weight_compiled_lt hfound hkept)

theorem weight_flatMap_le {fragments : List Fragment}
    (h : ∀ f ∈ fragments, weight f.compiled ≤ weight f.raw) :
    weight (fragments.flatMap compiled) ≤ weight (toText fragments) := by
  induction fragments with
  | nil => exact Nat.le_refl _
  | cons f fragments ih =>
      have hfirst := h f List.mem_cons_self
      have hrest := ih fun g hg => h g (List.mem_cons_of_mem _ hg)
      rw [List.flatMap_cons, toText_cons, weight_append, weight_append]
      omega

theorem weight_flatMap_lt {fragments : List Fragment}
    (h : ∀ f ∈ fragments, weight f.compiled ≤ weight f.raw) {f : Fragment} (hf : f ∈ fragments)
    (hlt : weight f.compiled < weight f.raw) :
    weight (fragments.flatMap compiled) < weight (toText fragments) := by
  obtain ⟨before, after, rfl⟩ := List.append_of_mem hf
  have hbefore := weight_flatMap_le fun g hg => h g (List.mem_append_left _ hg)
  have hafter := weight_flatMap_le fun g hg =>
    h g (List.mem_append_right before (List.mem_cons_of_mem f hg))
  have htext : toText (before ++ f :: after) = toText before ++ (f.raw ++ toText after) := by
    simp [toText]
  rw [List.flatMap_append, List.flatMap_cons, htext]
  simp only [weight_append]
  omega

theorem isKept_of_compile_eq {t : Text} (h : compile t = t) : ∀ f ∈ ofText t, f.isKept = true := by
  intro f hf
  by_contra hkept
  rw [Bool.not_eq_true] at hkept
  have hfound : f.IsFound := by
    rcases isFound_of_mem hf with htext | hfound
    · rw [isKept, htext] at hkept
      cases hkept
    · exact hfound
  have hlt := weight_flatMap_lt (fun g hg => weight_compiled_le (isFound_of_mem hg)) hf
    (weight_compiled_lt hfound hkept)
  rw [toText_ofText, ← compile, h] at hlt
  exact Nat.lt_irrefl _ hlt

theorem compile_eq_of_isKept {t : Text} (h : ∀ f ∈ ofText t, f.isKept = true) : compile t = t := by
  have hsame : (ofText t).flatMap compiled = toText (ofText t) := by
    unfold toText
    exact List.flatMap_congr fun f hf => compiled_of_isKept (h f hf)
  rw [compile, hsame, toText_ofText]

/-! ## Compiling twice -/

/-- Compiling again changes nothing just if nothing but copied fragments is left, and that is
so for every source without comments and without names that are written in another way. -/
theorem compile_compile_eq_iff (source : Text) :
    (compile (compile source) = compile source ↔
      ∀ f ∈ ofText (compile source), f.isKept = true) ∧
    (IsCanonical source → compile (compile source) = compile source) :=
  ⟨⟨isKept_of_compile_eq, compile_eq_of_isKept⟩, compile_compile_of_isCanonical⟩

def partedKeyword : Text := "@els\x7b\x7b----\x7d\x7de".toList

theorem compile_compile_eq_iff_openers :
    IsCanonical "@include('n') @if( @else".toList ∧
      compile (compile "@include('n') @if( @else".toList) =
        compile "@include('n') @if( @else".toList := by
  have hcanonical : IsCanonical "@include('n') @if( @else".toList := by
    unfold IsCanonical
    decide +kernel
  exact ⟨hcanonical, (compile_compile_eq_iff "@include('n') @if( @else".toList).2 hcanonical⟩

theorem compile_compile_partedKeyword :
    compile (compile partedKeyword) ≠ compile partedKeyword := by
  decide +kernel

end Stencil.Template
