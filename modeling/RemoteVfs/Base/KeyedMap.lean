import Mathlib.Data.List.AList

-- Retaining the entries of a keyed map by their key.
namespace AList

variable {α : Type*} [DecidableEq α] {β : α → Type*}

theorem dlookup_filter_key (keep : α → Bool) (entries : List (Sigma β)) (a : α) :
    (entries.filter fun entry => keep entry.1).dlookup a =
      if keep a then entries.dlookup a else none := by
  induction entries with
  | nil => simp
  | cons entry rest ih =>
      rcases entry with ⟨key, value⟩
      by_cases he : a = key
      · subst he
        by_cases hk : keep a
        · simp [hk]
        · simpa [hk] using ih
      · by_cases hk : keep key
        · simp [hk, he, ih]
        · simp [hk, he, ih]

def retain (keep : α → Bool) (map : AList β) : AList β :=
  ⟨map.entries.filter fun entry => keep entry.1, map.nodupKeys.sublist List.filter_sublist⟩

@[simp] theorem lookup_retain (keep : α → Bool) (map : AList β) (a : α) :
    (map.retain keep).lookup a = if keep a then map.lookup a else none :=
  dlookup_filter_key keep map.entries a

end AList
