/-! The leading run of a list, the elements in front of the first that fails a test, and how it
grows with the list. -/

namespace Scriptlet.LeadingRun
variable {α : Type} {p : α → Bool} {w v xs ys : List α}

theorem takeWhile_append_of_head? (hw : ∀ c ∈ w, p c = true) (hxs : ∀ c ∈ xs.head?, p c = false) :
    (w ++ xs).takeWhile p = w := by
  rw [List.takeWhile_append_of_pos hw]
  cases xs with
  | nil => exact List.append_nil w
  | cons x xs => rw [List.takeWhile_cons_of_neg (by simp [hxs x rfl]), List.append_nil]

theorem takeWhile_append_cons {b : α} (hw : ∀ c ∈ w, p c = true) (hb : p b = false)
    (ys : List α) : (w ++ b :: ys).takeWhile p = w :=
  takeWhile_append_of_head? hw fun _ hc => Option.mem_some.1 hc ▸ hb

theorem takeWhile_append_of_lt (h : (xs.takeWhile p).length < xs.length) (ys : List α) :
    (xs ++ ys).takeWhile p = xs.takeWhile p := by
  rw [List.takeWhile_append, if_neg (Nat.ne_of_lt h)]

theorem isPrefix_takeWhile (h : w <+: xs) (hw : ∀ c ∈ w, p c = true) : w <+: xs.takeWhile p := by
  obtain ⟨tail, rfl⟩ := h
  rw [List.takeWhile_append_of_pos hw]
  exact List.prefix_append w _

theorem append_inj_of_head? (hw : ∀ c ∈ w, p c = true) (hv : ∀ c ∈ v, p c = true)
    (hxs : ∀ c ∈ xs.head?, p c = false) (hys : ∀ c ∈ ys.head?, p c = false)
    (h : w ++ xs = v ++ ys) : w = v ∧ xs = ys := by
  have hwv := congrArg (List.takeWhile p) h
  rw [takeWhile_append_of_head? hw hxs, takeWhile_append_of_head? hv hys] at hwv
  exact ⟨hwv, List.append_cancel_left (hwv ▸ h)⟩

end Scriptlet.LeadingRun
