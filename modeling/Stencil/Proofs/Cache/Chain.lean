import Mathlib.Data.List.Nodup
import Mathlib.Data.List.Perm.Subperm
import Stencil.Cache.Chain
import Stencil.Proofs.Cache.Location

/-!
# Chains in files that do not change

Without changes between its looks at the disk, a chain is what its documents
say: each names the next, no name comes twice, and the last names none.  The
bound on its length plays no part, since different documents of a chain are
different files.
-/

namespace Stencil

namespace Reading

def at? (c : Config) (files : FileSystem) (name : Text) : Option Reading :=
  match files.readText (c.sourceFile name) with
  | .ok source => some ⟨name, .ofSource source, files.modified? (c.sourceFile name)⟩
  | .error _ => none

theorem take_eq_ok_iff {c : Config} {files : FileSystem} {i : Nat} {name : Text}
    {missing : Failure} {r : Reading} :
    take c (fun _ => files) i name missing = .ok r ↔ at? c files name = some r := by
  unfold take at?
  dsimp only
  cases files.readText (c.sourceFile name) with
  | ok source => simp
  | error fault => cases fault <;> simp

theorem of_at? {c : Config} {files : FileSystem} {name : Text} {r : Reading}
    (h : at? c files name = some r) :
    r.name = name ∧ ∃ e, files.find? (c.sourceFile name) = some e ∧ e.isFile = true ∧
      r.modified = some e.modified ∧
      ∃ source, e.bytes?.bind Text.ofBytes? = some source ∧ r.document = .ofSource source := by
  unfold at? at h
  split at h
  · next source hs =>
    simp only [Option.some.injEq] at h
    subst h
    obtain ⟨e, he, hb⟩ := FileSystem.readText_eq_ok_iff.1 hs
    obtain ⟨bytes, hbytes, -⟩ := Option.bind_eq_some_iff.1 hb
    exact ⟨rfl, e, he, by simp [Entry.isFile, hbytes], by simp [FileSystem.modified?, he],
      source, hb, rfl⟩
  · cases h

theorem at?_of_find? {c : Config} {files : FileSystem} {name : Text} {e : Entry} {source : Text}
    (he : files.find? (c.sourceFile name) = some e)
    (hs : e.bytes?.bind Text.ofBytes? = some source) :
    at? c files name = some ⟨name, .ofSource source, some e.modified⟩ := by
  have hread : files.readText (c.sourceFile name) = .ok source :=
    FileSystem.readText_eq_ok_iff.2 ⟨e, he, hs⟩
  simp [at?, hread, FileSystem.modified?, he]

theorem exists_at? {c : Config} {files : FileSystem} {name source : Text}
    (h : files.readText (c.sourceFile name) = .ok source) : ∃ r, at? c files name = some r :=
  ⟨⟨name, .ofSource source, files.modified? (c.sourceFile name)⟩, by simp [at?, h]⟩

/-! ## Chains -/

/-- The chain of layouts that starts with `last`, after documents with the names `earlier`. -/
inductive IsChain (c : Config) (files : FileSystem) : List Text → Reading → List Reading → Prop
  | root {earlier : List Text} {last : Reading} (h : last.document.layout = none) :
      IsChain c files earlier last [last]
  | layout {earlier : List Text} {last next : Reading} {layout : Text} {readings : List Reading}
      (h : last.document.layout = some layout) (hnew : layout ∉ earlier ++ [last.name])
      (hname : isTemplateName layout = true) (hnext : at? c files layout = some next)
      (hrest : IsChain c files (earlier ++ [last.name]) next readings) :
      IsChain c files earlier last (last :: readings)

theorem isChain_iff_of_none {c : Config} {files : FileSystem} {earlier : List Text} {last : Reading}
    {readings : List Reading} (h : last.document.layout = none) :
    IsChain c files earlier last readings ↔ readings = [last] := by
  constructor
  · intro hc
    cases hc with
    | root => rfl
    | layout h' => simp [h] at h'
  · rintro rfl
    exact .root h

theorem isChain_iff_of_some {c : Config} {files : FileSystem} {earlier : List Text} {last : Reading}
    {layout : Text} {readings : List Reading} (h : last.document.layout = some layout) :
    IsChain c files earlier last readings ↔
      layout ∉ earlier ++ [last.name] ∧ isTemplateName layout = true ∧
        ∃ next rest, at? c files layout = some next ∧
          IsChain c files (earlier ++ [last.name]) next rest ∧ readings = last :: rest := by
  constructor
  · intro hc
    cases hc with
    | root h' => simp [h] at h'
    | layout h' hnew hname hnext hrest =>
        cases Option.some.inj (h.symm.trans h')
        exact ⟨hnew, hname, _, _, hnext, hrest, rfl⟩
  · rintro ⟨hnew, hname, next, rest, hnext, hrest, rfl⟩
    exact .layout h hnew hname hnext hrest

theorem IsChain.length_pos {c : Config} {files : FileSystem} {earlier : List Text}
    {last : Reading} {readings : List Reading} (h : IsChain c files earlier last readings) :
    0 < readings.length := by
  cases h with
  | root => simp
  | layout => simp

theorem follow_eq_ok_iff_of_none {c : Config} {files : FileSystem} {fuel : Nat}
    {earlier : List Text} {last : Reading} {readings : List Reading}
    (h : last.document.layout = none) :
    follow c (fun _ => files) fuel earlier last = .ok readings ↔
      IsChain c files earlier last readings ∧ readings.length ≤ fuel + 1 := by
  have hfollow : follow c (fun _ => files) fuel earlier last = .ok [last] := by
    unfold follow
    simp only [h]
  rw [isChain_iff_of_none h, hfollow]
  constructor
  · rintro ⟨⟩
    simp
  · rintro ⟨rfl, -⟩
    rfl

theorem follow_eq_ok_iff {c : Config} {files : FileSystem} {fuel : Nat} {earlier : List Text}
    {last : Reading} {readings : List Reading} :
    follow c (fun _ => files) fuel earlier last = .ok readings ↔
      IsChain c files earlier last readings ∧ readings.length ≤ fuel + 1 := by
  induction fuel generalizing earlier last readings with
  | zero =>
      cases h : last.document.layout with
      | none => exact follow_eq_ok_iff_of_none h
      | some layout =>
          unfold follow
          rw [isChain_iff_of_some h]
          simp only [h]
          constructor
          · intro hf
            split at hf
            · cases hf
            · split at hf <;> cases hf
          · rintro ⟨⟨-, -, next, rest, -, hrest, rfl⟩, hlength⟩
            have := hrest.length_pos
            simp only [List.length_cons] at hlength
            omega
  | succ fuel ih =>
      cases h : last.document.layout with
      | none => exact follow_eq_ok_iff_of_none h
      | some layout =>
          unfold follow
          rw [isChain_iff_of_some h]
          simp only [h]
          constructor
          · intro hf
            split at hf
            · cases hf
            · next hnew =>
              split at hf
              · cases hf
              · next hname =>
                split at hf
                · cases hf
                · next next hnext =>
                  split at hf
                  · cases hf
                  · next rest hrest =>
                    cases hf
                    obtain ⟨hc, hlength⟩ := ih.1 hrest
                    exact ⟨⟨hnew, by simpa using hname, next, rest, take_eq_ok_iff.1 hnext, hc,
                      rfl⟩, by simpa using hlength⟩
          · rintro ⟨⟨hnew, hname, next, rest, hnext, hrest, rfl⟩, hlength⟩
            have hfollow := ih.2 ⟨hrest, by simpa using hlength⟩
            simp only [hnew, hname, if_false, Bool.not_true, Bool.false_eq_true,
              take_eq_ok_iff.2 hnext, hfollow]

/-! ## What a chain consists of -/

section

variable {c : Config} {files files' : FileSystem} {earlier : List Text} {last : Reading}
  {readings : List Reading}

theorem IsChain.eq_cons (h : IsChain c files earlier last readings) :
    readings = last :: readings.tail := by
  cases h <;> rfl

theorem IsChain.of_mem_tail (h : IsChain c files earlier last readings) {r : Reading}
    (hr : r ∈ readings.tail) : isTemplateName r.name = true ∧ at? c files r.name = some r := by
  induction h with
  | root => simp at hr
  | layout _ _ hname hnext hrest ih =>
      rw [List.tail_cons, hrest.eq_cons] at hr
      rcases List.mem_cons.1 hr with rfl | hr
      · rw [(of_at? hnext).1]
        exact ⟨hname, hnext⟩
      · exact ih hr

theorem IsChain.nodup (h : IsChain c files earlier last readings)
    (hearlier : (earlier ++ [last.name]).Nodup) : (earlier ++ readings.map name).Nodup := by
  induction h with
  | root => exact hearlier
  | layout _ hnew _ hnext _ ih =>
      have hnames := ih (by
        rw [(of_at? hnext).1]
        exact List.nodup_append.2 ⟨hearlier, List.nodup_singleton _, by
          rintro a ha b hb rfl
          exact hnew (List.mem_singleton.1 hb ▸ ha)⟩)
      simpa using hnames

theorem IsChain.transfer (h : IsChain c files earlier last readings)
    (hsame : ∀ r ∈ readings.tail, at? c files' r.name = some r) :
    IsChain c files' earlier last readings := by
  induction h with
  | root h => exact .root h
  | layout h hnew hname hnext hrest ih =>
      rw [List.tail_cons, hrest.eq_cons] at hsame
      have hfirst := hsame _ List.mem_cons_self
      rw [(of_at? hnext).1] at hfirst
      exact .layout h hnew hname hfirst (ih fun r hr => hsame r (List.mem_cons_of_mem _ hr))

theorem IsChain.behind (h : IsChain c files earlier last readings) {more : List Text}
    (hmore : ∀ r ∈ readings.tail, r.name ∉ more) :
    IsChain c files (more ++ earlier) last readings := by
  induction h with
  | root h => exact .root h
  | layout h hnew hname hnext hrest ih =>
      rw [List.tail_cons, hrest.eq_cons] at hmore
      have hfirst := hmore _ List.mem_cons_self
      rw [(of_at? hnext).1] at hfirst
      have htail := ih fun r hr => hmore r (List.mem_cons_of_mem _ hr)
      rw [← List.append_assoc] at htail
      refine .layout h ?_ hname hnext htail
      simp only [List.append_assoc, List.mem_append, not_or] at hnew ⊢
      exact ⟨hfirst, hnew⟩

end

/-! ## Chains are no longer than files are many -/

theorem namedPlace_mem_entries {c : Config} {files : FileSystem} {name first : Text}
    {rest : List Text} {r : Reading} (hname : isTemplateName name = true)
    (hext : Text.splitOn Path.slash c.templateExtension = first :: rest)
    (hr : at? c files name = some r) :
    namedPlace (files.target c.viewRoot) first name ∈ files.entries.map Prod.fst := by
  obtain ⟨-, e, he, -⟩ := of_at? hr
  obtain ⟨e', he'⟩ :=
    FileSystem.exists_at?_of_find? he (Config.namedPlace_mem_passed hname hext files)
  refine List.mem_map.2 ⟨(_, e'), (files.mem_entries_iff ?_).2 he', rfl⟩
  obtain ⟨front, last, hparts⟩ := Text.exists_splitOn_eq_concat Path.slash name
  simp [namedPlace_eq hparts]

theorem length_le_entries {c : Config} {files : FileSystem} {names : List Text}
    (hnodup : names.Nodup)
    (hread : ∀ name ∈ names, isTemplateName name = true ∧ ∃ r, at? c files name = some r) :
    names.length ≤ files.entries.length := by
  obtain ⟨first, rest, hext⟩ := List.exists_cons_of_ne_nil
    (Text.splitOn_ne_nil Path.slash c.templateExtension)
  -- each name has a place of its own on the way to its source, and that place is listed
  have hplaces : (names.map (namedPlace (files.target c.viewRoot) first)).Nodup :=
    hnodup.map fun _ _ => namedPlace_inj
  have hsubset : names.map (namedPlace (files.target c.viewRoot) first) ⊆
      files.entries.map Prod.fst := by
    intro place hplace
    obtain ⟨name, hname, rfl⟩ := List.mem_map.1 hplace
    obtain ⟨hvalid, r, hr⟩ := hread name hname
    exact namedPlace_mem_entries hvalid hext hr
  simpa using (hplaces.subperm hsubset).length_le

theorem IsChain.length_le {c : Config} {files : FileSystem} {page : Reading}
    {readings : List Reading} {name : Text} (h : IsChain c files [] page readings)
    (hname : isTemplateName name = true) (hpage : at? c files name = some page) :
    readings.length ≤ files.entries.length := by
  have hnodup : (readings.map Reading.name).Nodup := by simpa using h.nodup (by simp)
  have hread : ∀ other ∈ readings.map Reading.name,
      isTemplateName other = true ∧ ∃ r, at? c files other = some r := by
    intro other hother
    obtain ⟨r, hr, rfl⟩ := List.mem_map.1 hother
    rw [h.eq_cons] at hr
    rcases List.mem_cons.1 hr with rfl | hr
    · rw [(of_at? hpage).1]
      exact ⟨hname, _, hpage⟩
    · exact ⟨(h.of_mem_tail hr).1, r, (h.of_mem_tail hr).2⟩
  simpa using length_le_entries hnodup hread

theorem chain_eq_ok_iff {c : Config} {files : FileSystem} {fuel : Nat} {name : Text}
    {readings : List Reading} :
    chain c (fun _ => files) fuel name = .ok readings ↔
      ∃ page, at? c files name = some page ∧ IsChain c files [] page readings ∧
        readings.length ≤ fuel + 1 := by
  unfold chain
  constructor
  · intro h
    split at h
    · cases h
    · next page hpage => exact ⟨page, take_eq_ok_iff.1 hpage, follow_eq_ok_iff.1 h⟩
  · rintro ⟨page, hpage, h⟩
    rw [take_eq_ok_iff.2 hpage]
    exact follow_eq_ok_iff.2 h

end Reading

theorem Build.ofFiles_eq_ok_iff {c : Config} {files : FileSystem} {name : Text} {build : Build}
    (hname : isTemplateName name = true) :
    ofFiles c files name = .ok build ↔
      ∃ page readings, Reading.at? c files name = some page ∧
        Reading.IsChain c files [] page readings ∧ build = ofChain readings := by
  unfold ofFiles onDisk
  constructor
  · intro h
    split at h
    · next readings hchain =>
      obtain ⟨page, hpage, hc, -⟩ := Reading.chain_eq_ok_iff.1 hchain
      exact ⟨page, readings, hpage, hc, (Except.ok.inj h).symm⟩
    · cases h
  · rintro ⟨page, readings, hpage, hc, rfl⟩
    have hlength := hc.length_le hname hpage
    rw [Reading.chain_eq_ok_iff.2 ⟨page, hpage, hc, by omega⟩]

end Stencil
