import BuildDelta.PathFilter
import BuildDelta.Proofs.Scan.Names
/-!
# Which files a filter leaves out

A filter sees the names on the way to a file: a hidden one anywhere (`isHidden_relative`), and the
extension of the last one (`extension?_relative`).
-/

namespace BuildDelta

open FileSystem Scan

namespace Path

/-- A dot at the start of a name separates no extension, and one behind something does. -/
theorem splitExtension_append_dot {extension : Bytes} (h : dot ∉ extension) (stem : Bytes) :
    (splitExtension (stem ++ dot :: extension)).2 = none ∨
      (splitExtension (stem ++ dot :: extension)).2 = some extension := by
  cases stem with
  | nil =>
    rw [List.nil_append, splitExtension_hidden h]
    exact .inl rfl
  | cons b stem =>
    rw [splitExtension_append (List.cons_ne_nil b stem) h]
    exact .inr rfl

end Path

namespace PathFilter

variable {filter : PathFilter} {names : List Name}

theorem isHidden_relative (h : ∀ name ∈ names, name.Valid) :
    isHidden (relative names) = names.any (·.head? = some Path.dot) := by
  rw [isHidden, relative, Path.components_intercalate h, List.any_map]
  rfl

theorem extension?_relative (h : ∀ name ∈ names, name.Valid) :
    (relative names).extension? = names.getLast?.bind fun name => (Path.splitExtension name).2 := by
  have hname : (relative names).fileName? = names.getLast? := by
    rw [Path.fileName?, relative, Path.components_intercalate h, List.getLast?_map]
    cases names.getLast? <;> rfl
  rw [Path.extension?, hname]
  rfl

theorem not_accepts_of_hidden (hskip : filter.skipHidden = true) (h : ∀ name ∈ names, name.Valid)
    (hhidden : ∃ name ∈ names, name.head? = some Path.dot) : filter.accepts (relative names) = false := by
  have hany : isHidden (relative names) = true := by
    rw [isHidden_relative h, List.any_eq_true]
    obtain ⟨name, hname, hdot⟩ := hhidden
    exact ⟨name, hname, decide_eq_true hdot⟩
  rw [accepts, hskip, hany]
  rfl

/-- With extensions listed, a file whose extension is another one is left out. -/
theorem not_accepts_of_extension (hlisted : filter.extensions ≠ []) (h : ∀ name ∈ names, name.Valid)
    (hother : ∀ name extension, names.getLast? = some name →
      (Path.splitExtension name).2 = some (Utf8.encode extension) →
        ∀ e ∈ filter.extensions, sameLetters e extension = false) :
    filter.accepts (relative names) = false := by
  have hempty : filter.extensions.isEmpty = false := by simpa using hlisted
  have hextension : hasExtension filter.extensions (relative names) = false := by
    unfold hasExtension
    split
    · rename_i extension hdecoded
      obtain ⟨bytes, hbytes, htext⟩ := Option.bind_eq_some_iff.1 hdecoded
      rw [extension?_relative h] at hbytes
      obtain ⟨name, hlast, hsplit⟩ := Option.bind_eq_some_iff.1 hbytes
      rw [← Utf8.decode?_eq_some_iff.1 htext] at hsplit
      rw [List.any_eq_false]
      intro e he
      rw [hother name extension hlast hsplit e he]
      exact Bool.false_ne_true
    · rfl
  rw [accepts, hempty, hextension]
  exact Bool.and_false _

end PathFilter

end BuildDelta
