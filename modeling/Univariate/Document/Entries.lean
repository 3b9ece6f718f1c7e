/-! Association lists with one entry per key, in the order in which keys were first written. -/

namespace Univariate

abbrev Entries (κ β : Type) := List (κ × β)

namespace Entries

variable {κ β : Type} [DecidableEq κ]

/-- Gives the key a value that may depend on the one it has. -/
def update (key : κ) (f : Option β → β) : Entries κ β → Entries κ β
  | [] => [(key, f none)]
  | (k, v) :: rest => if k = key then (k, f (some v)) :: rest else (k, v) :: update key f rest

def get? (entries : Entries κ β) (key : κ) : Option β :=
  (entries.find? (·.1 = key)).map Prod.snd

theorem get?_update_self (entries : Entries κ β) (key : κ) (f : Option β → β) :
    get? (update key f entries) key = some (f (get? entries key)) := by
  induction entries with
  | nil => simp [update, get?]
  | cons entry rest ih =>
    by_cases h : entry.1 = key
    · simp [update, get?, h]
    · simpa [update, get?, h] using ih

theorem get?_update_of_ne (entries : Entries κ β) {key other : κ} (f : Option β → β)
    (h : other ≠ key) : get? (update key f entries) other = get? entries other := by
  induction entries with
  | nil => simp [update, get?, h.symm]
  | cons entry rest ih =>
    by_cases hkey : entry.1 = key
    · have hother : entry.1 ≠ other := fun he => h (he.symm.trans hkey)
      simp [update, get?, hkey, h.symm]
    · by_cases hother : entry.1 = other
      · simp [update, get?, hother, h]
      · simpa [update, get?, hkey, hother] using ih

end Entries

end Univariate
