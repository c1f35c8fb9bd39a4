import Mathlib.Data.List.Basic

namespace RemoteVfs.Base

section Prefixed

variable {α : Type} {header : Nat → List α} {width limit : Nat}

-- The parts one after the other, each preceded by a header that tells its length.
def prefixed (header : Nat → List α) (parts : List (List α)) : List α :=
  parts.flatMap fun part => header part.length ++ part

theorem prefixed_cons (part : List α) (rest : List (List α)) :
    prefixed header (part :: rest) = header part.length ++ (part ++ prefixed header rest) := by
  rw [prefixed, List.flatMap_cons, List.append_assoc]
  rfl

-- Headers of one width that tell the lengths below the limit apart.
structure Separates (header : Nat → List α) (width limit : Nat) : Prop where
  length : ∀ n, (header n).length = width
  pos : 0 < width
  inj : ∀ m n, m < limit → n < limit → header m = header n → m = n

theorem Separates.cons_ne_nil (h : Separates header width limit) (part : List α) (rest : List (List α)) :
    prefixed header (part :: rest) ≠ [] := by
  intro hnil
  have hlength := congrArg List.length hnil
  have hpos := h.pos
  rw [prefixed_cons, List.length_append, h.length, List.length_nil] at hlength
  omega

theorem Separates.prefixed_inj (h : Separates header width limit) {a b : List (List α)}
    (ha : ∀ part ∈ a, part.length < limit) (hb : ∀ part ∈ b, part.length < limit)
    (heq : prefixed header a = prefixed header b) : a = b := by
  induction a generalizing b with
  | nil =>
      cases b with
      | nil => rfl
      | cons part rest => exact absurd heq.symm (h.cons_ne_nil part rest)
  | cons part rest ih =>
      cases b with
      | nil => exact absurd heq (h.cons_ne_nil part rest)
      | cons part' rest' =>
          rw [prefixed_cons, prefixed_cons] at heq
          -- The headers have one width, so they are equal, and then the parts have one length.
          obtain ⟨hheader, hrest⟩ := List.append_inj heq (by rw [h.length, h.length])
          have hlength := h.inj _ _ (ha part List.mem_cons_self) (hb part' List.mem_cons_self) hheader
          obtain ⟨hpart, hrest⟩ := List.append_inj hrest hlength
          have htail := ih (fun part hmem => ha part (List.mem_cons_of_mem _ hmem))
            (fun part hmem => hb part (List.mem_cons_of_mem _ hmem)) hrest
          rw [hpart, htail]

end Prefixed

end RemoteVfs.Base
