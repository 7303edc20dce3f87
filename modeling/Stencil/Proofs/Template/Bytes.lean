import Stencil.Proofs.Template.Closed
import Stencil.Proofs.Template.Closer
import Stencil.Proofs.Text.Quoted

/-!
# Scanning bytes

A scanner may as well go through the UTF-8 form of a text, one byte after the
other, and step over one byte behind a backslash.  Quotes, backslashes, marks
and parentheses are ASCII, and no byte of another character is; so a scan of
the bytes stops at the offset at which a scan of the characters does.
-/

namespace Stencil

/-! ## ASCII -/

namespace Text

def IsAscii (c : Char) : Prop := c.toNat < 0x80

instance (c : Char) : Decidable (IsAscii c) := inferInstanceAs (Decidable (c.toNat < 0x80))

def byte (c : Char) : UInt8 := UInt8.ofNat c.toNat

theorem toNat_byte {c : Char} (h : IsAscii c) : (byte c).toNat = c.toNat := by
  have hc : c.toNat < 0x80 := h
  rw [byte, UInt8.toNat_ofNat']
  omega

theorem byte_inj {c d : Char} (hc : IsAscii c) (hd : IsAscii d) : byte c = byte d ↔ c = d := by
  rw [← UInt8.toNat_inj, toNat_byte hc, toNat_byte hd, Char.toNat_inj]

theorem utf8Size_of_isAscii {c : Char} (h : IsAscii c) : c.utf8Size = 1 :=
  Char.utf8Size_eq_one_iff.2 (UInt32.le_iff_toNat_le.2 (Nat.le_of_lt_succ h))

theorem utf8EncodeChar_of_isAscii {c : Char} (h : IsAscii c) :
    String.utf8EncodeChar c = [byte c] :=
  String.utf8EncodeChar_eq_singleton (utf8Size_of_isAscii h)

theorem ne_byte_of_mem {c d : Char} (hc : ¬ IsAscii c) (hd : IsAscii d) {b : UInt8}
    (hb : b ∈ String.utf8EncodeChar c) : b ≠ byte d := by
  have hlarge : 0x80 ≤ b.toNat := by
    have hn : ¬ c.val.toNat ≤ 127 := fun h => hc (Nat.lt_succ_of_le h)
    unfold String.utf8EncodeChar at hb
    dsimp only at hb
    rw [if_neg hn] at hb
    have hbound := c.val.toNat_lt
    split at hb
    · simp only [List.mem_cons, List.not_mem_nil, or_false] at hb
      rcases hb with rfl | rfl <;> rw [UInt8.toNat_ofNat'] <;> omega
    · split at hb
      · simp only [List.mem_cons, List.not_mem_nil, or_false] at hb
        rcases hb with rfl | rfl | rfl <;> rw [UInt8.toNat_ofNat'] <;> omega
      · simp only [List.mem_cons, List.not_mem_nil, or_false] at hb
        rcases hb with rfl | rfl | rfl | rfl <;> rw [UInt8.toNat_ofNat'] <;> omega
  rintro rfl
  rw [toNat_byte hd] at hlarge
  exact Nat.not_lt.2 hlarge hd

theorem bytes_prefix_iff {mark : Text} (hmark : ∀ c ∈ mark, IsAscii c) (t : Text) :
    bytes mark <+: bytes t ↔ mark <+: t := by
  induction mark generalizing t with
  | nil => simp
  | cons m mark ih =>
      obtain ⟨hm, hmore⟩ := List.forall_mem_cons.1 hmark
      rw [bytes_cons, utf8EncodeChar_of_isAscii hm, List.singleton_append]
      cases t with
      | nil => simp
      | cons c t =>
          by_cases hc : IsAscii c
          · rw [bytes_cons, utf8EncodeChar_of_isAscii hc, List.singleton_append,
              List.cons_prefix_cons, List.cons_prefix_cons, byte_inj hm hc, ih hmore]
          · have hne : m ≠ c := by
              rintro rfl
              exact hc hm
            obtain ⟨b, more, hb⟩ :=
              List.exists_cons_of_ne_nil (String.utf8EncodeChar_ne_nil (c := c))
            have hbyte := ne_byte_of_mem hc hm (b := b) (by simp [hb])
            rw [bytes_cons, hb, List.cons_append, List.cons_prefix_cons, List.cons_prefix_cons]
            simp [hne, hbyte.symm]

end Text

namespace Template

open Text (IsAscii byte bytes)

namespace Closer

/-! ## The scanner of bytes -/

def isQuoteByte (b : UInt8) : Bool := b == byte '\'' || b == byte '"'

def depthAfterByte (k : Closer) (depth : Nat) (b : UInt8) : Nat :=
  if k.nests then
    if b = byte '(' then depth + 1 else if b = byte ')' then depth - 1 else depth
  else depth

/-- The offset at which a scan of bytes stops.  The first of them is at `i`, and `quote` is open
in front of it. -/
def stop? (k : Closer) (depth : Nat) (quote : Option UInt8) (i : Nat) : List UInt8 → Option Nat
  | [] => none
  | b :: t =>
    match quote with
    | some q =>
      if b = byte '\\' then k.stop? depth (some q) (i + 2) (t.drop 1)
      else if b = q then k.stop? depth none (i + 1) t
      else k.stop? depth (some q) (i + 1) t
    | none =>
      if isQuoteByte b then k.stop? depth (some b) (i + 1) t
      else if depth = 0 ∧ bytes k.mark <+: b :: t then some i
      else k.stop? (k.depthAfterByte depth b) none (i + 1) t
termination_by t => t.length

variable {k : Closer} {depth i : Nat}

@[simp] theorem stop?_nil (quote : Option UInt8) : k.stop? depth quote i [] = none := by
  rw [stop?]

theorem stop?_some (q b : UInt8) (t : List UInt8) :
    k.stop? depth (some q) i (b :: t) =
      if b = byte '\\' then k.stop? depth (some q) (i + 2) (t.drop 1)
      else if b = q then k.stop? depth none (i + 1) t
      else k.stop? depth (some q) (i + 1) t := by
  rw [stop?]

theorem stop?_none (b : UInt8) (t : List UInt8) :
    k.stop? depth none i (b :: t) =
      if isQuoteByte b then k.stop? depth (some b) (i + 1) t
      else if depth = 0 ∧ bytes k.mark <+: b :: t then some i
      else k.stop? (k.depthAfterByte depth b) none (i + 1) t := by
  rw [stop?]

structure HasAsciiMark (k : Closer) : Prop where
  sharp : Sharp k.mark
  ascii : ∀ c ∈ k.mark, IsAscii c

def IsWide (b : UInt8) : Prop := ∀ c, IsAscii c → b ≠ byte c

theorem isWide_of_mem {c : Char} (hc : ¬ IsAscii c) {b : UInt8}
    (hb : b ∈ String.utf8EncodeChar c) : IsWide b :=
  fun _ hd => Text.ne_byte_of_mem hc hd hb

theorem stop?_cons_of_isWide (hk : k.HasAsciiMark) {b : UInt8} (hb : IsWide b)
    {quote : Option UInt8} (hquote : ∀ q ∈ quote, ∃ c, IsAscii c ∧ q = byte c) (t : List UInt8) :
    k.stop? depth quote i (b :: t) = k.stop? depth quote (i + 1) t := by
  cases quote with
  | some q =>
      obtain ⟨c, hc, rfl⟩ := hquote q rfl
      rw [stop?_some, if_neg (hb '\\' (by decide)), if_neg (hb c hc)]
  | none =>
      have hnone : isQuoteByte b = false := by
        simp [isQuoteByte, hb '\'' (by decide), hb '"' (by decide)]
      have hmark : ¬ bytes k.mark <+: b :: t := by
        obtain ⟨m, mark, hm, -⟩ := hk.sharp
        have hascii := hk.ascii m (by simp [hm])
        rw [hm, Text.bytes_cons, Text.utf8EncodeChar_of_isAscii hascii, List.singleton_append,
          List.cons_prefix_cons]
        exact fun h => hb m hascii h.1.symm
      have hdepth : k.depthAfterByte depth b = depth := by
        simp [depthAfterByte, hb '(' (by decide), hb ')' (by decide)]
      rw [stop?_none, hnone, hdepth]
      simp [hmark]

theorem stop?_append_of_isWide (hk : k.HasAsciiMark) {run : List UInt8}
    (hrun : ∀ b ∈ run, IsWide b) {quote : Option UInt8}
    (hquote : ∀ q ∈ quote, ∃ c, IsAscii c ∧ q = byte c) (t : List UInt8) :
    k.stop? depth quote i (run ++ t) = k.stop? depth quote (i + run.length) t := by
  induction run generalizing i with
  | nil => rfl
  | cons b run ih =>
      obtain ⟨hb, hmore⟩ := List.forall_mem_cons.1 hrun
      rw [List.cons_append, stop?_cons_of_isWide hk hb hquote, ih hmore, List.length_cons]
      congr 1
      omega

/-! ## The scanner of characters -/

theorem isAscii_of_isQuote {c : Char} (h : Quoted.isQuote c = true) : IsAscii c := by
  rcases Quoted.isQuote_iff.1 h with rfl | rfl <;> decide

theorem isQuoteByte_byte {c : Char} (h : IsAscii c) : isQuoteByte (byte c) = Quoted.isQuote c := by
  rw [Bool.eq_iff_iff, Quoted.isQuote_iff, isQuoteByte, Bool.or_eq_true, beq_iff_eq, beq_iff_eq,
    Text.byte_inj h (by decide), Text.byte_inj h (by decide)]

theorem depthAfterByte_byte {c : Char} (h : IsAscii c) :
    k.depthAfterByte depth (byte c) = k.depthAfter depth .outside c := by
  simp only [depthAfterByte, depthAfter, true_and, Text.byte_inj h (d := '(') (by decide),
    Text.byte_inj h (d := ')') (by decide)]

theorem depthAfter_of_ne {c : Char} (hopen : c ≠ '(') (hclose : c ≠ ')') (s : Quoting) :
    k.depthAfter depth s c = depth := by
  simp [depthAfter, hopen, hclose]

/-- How a scan of bytes goes on from where a scan of characters stands.  Behind a backslash it
has stepped over the next byte already. -/
def resume? (k : Closer) (depth i : Nat) (t : List UInt8) : Quoting → Option Nat
  | .outside => k.stop? depth none i t
  | .opened quote | .inside quote => k.stop? depth (some (byte quote)) i t
  | .escaping quote => k.stop? depth (some (byte quote)) (i + 1) (t.drop 1)

theorem resume?_within (quote c : Char) (t : List UInt8) :
    k.resume? depth i t (Quoting.within quote c) =
      if c = '\\' then k.stop? depth (some (byte quote)) (i + 1) (t.drop 1)
      else if c = quote then k.stop? depth none i t
      else k.stop? depth (some (byte quote)) i t := by
  unfold Quoting.within
  split
  · rfl
  · split <;> rfl

theorem resume?_inside (hk : k.HasAsciiMark) {quote : Char} (hq : Quoted.isQuote quote = true)
    (c : Char) (t : Text) :
    k.stop? depth (some (byte quote)) i (bytes (c :: t)) =
      k.resume? depth (i + c.utf8Size) (bytes t) (Quoting.within quote c) := by
  have hquote := isAscii_of_isQuote hq
  rw [resume?_within, Text.bytes_cons]
  by_cases hc : IsAscii c
  · rw [Text.utf8EncodeChar_of_isAscii hc, Text.utf8Size_of_isAscii hc, List.singleton_append,
      stop?_some]
    simp only [Text.byte_inj hc hquote, Text.byte_inj hc (d := '\\') (by decide)]
  · have hb : c ≠ '\\' := by
      rintro rfl
      exact hc (by decide)
    have hne : c ≠ quote := by
      rintro rfl
      exact hc hquote
    rw [if_neg hb, if_neg hne, stop?_append_of_isWide hk (fun _ => isWide_of_mem hc)
      (by simpa using ⟨quote, hquote, rfl⟩), String.length_utf8EncodeChar]

/-- Behind a backslash all bytes of a character but the first are left, and none of these is a
quote or a backslash. -/
theorem resume?_escaping (hk : k.HasAsciiMark) {quote : Char} (hq : Quoted.isQuote quote = true)
    (c : Char) (t : Text) :
    k.stop? depth (some (byte quote)) (i + 1) ((bytes (c :: t)).drop 1) =
      k.stop? depth (some (byte quote)) (i + c.utf8Size) (bytes t) := by
  obtain ⟨b, more, hbytes⟩ := List.exists_cons_of_ne_nil (String.utf8EncodeChar_ne_nil (c := c))
  have hsize : c.utf8Size = more.length + 1 := by
    rw [← String.length_utf8EncodeChar, hbytes, List.length_cons]
  have hwide : ∀ d ∈ more, IsWide d := by
    intro d hd
    by_cases hc : IsAscii c
    · rw [Text.utf8EncodeChar_of_isAscii hc] at hbytes
      rw [← (List.cons.inj hbytes).2] at hd
      cases hd
    · exact isWide_of_mem hc (by simp [hbytes, hd])
  rw [Text.bytes_cons, hbytes, List.cons_append, List.drop_succ_cons, List.drop_zero,
    stop?_append_of_isWide hk hwide (by simpa using ⟨quote, isAscii_of_isQuote hq, rfl⟩), hsize]
  congr 1
  omega

theorem hit?_outside_eq_none_iff {t : Text} :
    k.hit? depth .outside t = none ↔ ¬ (depth = 0 ∧ k.mark <+: t) := by
  rw [← Option.not_isSome_iff_eq_none, hit?_isSome_iff]
  simp

theorem hit?_of_isQuote (hk : k.HasAsciiMark) (depth : Nat) {c : Char}
    (hq : Quoted.isQuote c = true) (t : Text) :
    k.hit? depth .outside (c :: t) = none ∧ k.depthAfter depth .outside c = depth := by
  constructor
  · simp [hit?, after?_of_isQuote hk.sharp hq]
  · apply depthAfter_of_ne
    · rintro rfl
      cases hq
    · rintro rfl
      cases hq

theorem resume?_outside_of_isAscii (hk : k.HasAsciiMark) {c : Char} (hc : IsAscii c) (t : Text) :
    k.stop? depth none i (bytes (c :: t)) =
      match k.hit? depth .outside (c :: t) with
      | some _ => some i
      | none =>
        k.resume? (k.depthAfter depth .outside c) (i + c.utf8Size) (bytes t)
          (Quoting.outside.next c) := by
  have hstarts := Text.bytes_prefix_iff hk.ascii (c :: t)
  rw [Text.bytes_cons, Text.utf8EncodeChar_of_isAscii hc, List.singleton_append] at hstarts ⊢
  rw [Text.utf8Size_of_isAscii hc, stop?_none, isQuoteByte_byte hc, depthAfterByte_byte hc,
    Quoting.next]
  simp only [hstarts]
  cases hq : Quoted.isQuote c with
  | true =>
      obtain ⟨hhit, hdepth⟩ := hit?_of_isQuote hk depth hq t
      rw [hhit, hdepth]
      rfl
  | false =>
      cases hhit : k.hit? depth .outside (c :: t) with
      | some rest =>
          have hfound : depth = 0 ∧ k.mark <+: c :: t := by
            by_contra hn
            rw [hit?_outside_eq_none_iff.2 hn] at hhit
            cases hhit
          simp [hfound]
      | none =>
          rw [if_neg (hit?_outside_eq_none_iff.1 hhit)]
          rfl

theorem resume?_outside_of_not_isAscii (hk : k.HasAsciiMark) {c : Char} (hc : ¬ IsAscii c)
    (t : Text) :
    k.stop? depth none i (bytes (c :: t)) =
      match k.hit? depth .outside (c :: t) with
      | some _ => some i
      | none =>
        k.resume? (k.depthAfter depth .outside c) (i + c.utf8Size) (bytes t)
          (Quoting.outside.next c) := by
  have hquote : Quoted.isQuote c = false := by
    rw [Bool.eq_false_iff]
    exact fun hq => hc (isAscii_of_isQuote hq)
  have hne : ∀ d, IsAscii d → c ≠ d := by
    rintro d hd rfl
    exact hc hd
  have hhit : k.hit? depth .outside (c :: t) = none := by
    obtain ⟨m, mark, hm, -⟩ := hk.sharp
    have hfirst := hne m (hk.ascii m (by simp [hm]))
    rw [hit?_outside_eq_none_iff, hm, List.cons_prefix_cons]
    exact fun h => hfirst h.2.1.symm
  rw [hhit, depthAfter_of_ne (hne '(' (by decide)) (hne ')' (by decide)), Quoting.next, hquote,
    Text.bytes_cons, stop?_append_of_isWide hk (fun _ => isWide_of_mem hc) (by simp),
    String.length_utf8EncodeChar]
  rfl

theorem resume?_cons (hk : k.HasAsciiMark) {s : Quoting} (hs : s.IsProper) (c : Char) (t : Text) :
    k.resume? depth i (bytes (c :: t)) s =
      match k.hit? depth s (c :: t) with
      | some _ => some i
      | none =>
        k.resume? (k.depthAfter depth s c) (i + c.utf8Size) (bytes t) (s.next c) := by
  cases s with
  | outside =>
      by_cases hc : IsAscii c
      · exact resume?_outside_of_isAscii hk hc t
      · exact resume?_outside_of_not_isAscii hk hc t
  | opened quote =>
      rw [hit?_of_ne_outside k depth (by simp), depthAfter_of_ne_outside k depth (by simp)]
      exact resume?_inside hk hs c t
  | inside quote =>
      rw [hit?_of_ne_outside k depth (by simp), depthAfter_of_ne_outside k depth (by simp)]
      exact resume?_inside hk hs c t
  | escaping quote =>
      rw [hit?_of_ne_outside k depth (by simp), depthAfter_of_ne_outside k depth (by simp)]
      exact resume?_escaping hk hs c t

theorem resume?_bytes (hk : k.HasAsciiMark) {s : Quoting} (hs : s.IsProper) (t : Text) :
    k.resume? depth i (bytes t) s =
      (k.split? depth s t).map fun found => i + Text.utf8Length found.1 := by
  induction t generalizing depth i s with
  | nil => cases s <;> simp [resume?]
  | cons c t ih =>
      rw [resume?_cons hk hs, split?_cons]
      cases k.hit? depth s (c :: t) with
      | some rest => rfl
      | none =>
          dsimp only
          rw [ih (hs.next c)]
          cases k.split? (k.depthAfter depth s c) (s.next c) t with
          | none => rfl
          | some found => simp [prepend, Nat.add_assoc]

theorem stop?_bytes (hk : k.HasAsciiMark) (t : Text) :
    k.stop? depth none i (bytes t) =
      (k.split? depth .outside t).map fun found => i + Text.utf8Length found.1 :=
  resume?_bytes (s := .outside) hk trivial t

end Closer

end Template

end Stencil
