import Mathlib.Data.List.TakeWhile
import ImportCycles.Text.Blank

namespace ImportCycles

namespace Text

/-- A text of blanks alone. -/
def Blank (cs : List Char) : Prop :=
  ∀ c ∈ cs, isBlank c = true

instance (cs : List Char) : Decidable (Blank cs) :=
  decidable_of_iff (cs.all isBlank = true) List.all_eq_true

/-- A text without a blank at either end. -/
structure Trimmed (cs : List Char) : Prop where
  first : ∀ c ∈ cs.head?, isBlank c = false
  last : ∀ c ∈ cs.getLast?, isBlank c = false

variable {p : Char → Bool} {cs before after : List Char}

theorem trimEndBy_append (hafter : ∀ c ∈ after, p c = true) :
    trimEndBy p (cs ++ after) = trimEndBy p cs := by
  have hback : ∀ c ∈ after.reverse, p c = true := fun c hc => hafter c (List.mem_reverse.mp hc)
  rw [trimEndBy, List.reverse_append, List.dropWhile_append_of_pos hback, trimEndBy]

theorem trimEndBy_of_last (hlast : ∀ c ∈ cs.getLast?, p c = false) : trimEndBy p cs = cs := by
  rw [← List.head?_reverse] at hlast
  rw [trimEndBy]
  cases hback : cs.reverse with
  | nil => exact (List.reverse_eq_nil_iff.mp hback).symm
  | cons c rest =>
    have hkept : p c = false := hlast c (by simp [hback])
    rw [List.dropWhile_cons_of_neg (by simp [hkept]), ← hback, List.reverse_reverse]

theorem trimEndBy_isPrefix (p : Char → Bool) (cs : List Char) : trimEndBy p cs <+: cs := by
  rw [trimEndBy, ← List.reverse_suffix, List.reverse_reverse]
  exact List.dropWhile_suffix p

/-- Blanks around a text do not matter. -/
theorem trim_append (hbefore : Blank before) (hafter : Blank after) :
    trim (before ++ cs ++ after) = trim cs := by
  rw [trim, trimBy, List.append_assoc, List.dropWhile_append_of_pos hbefore, List.dropWhile_append]
  split
  · rename_i hempty
    rw [List.dropWhile_eq_nil_iff.mpr hafter, trim, trimBy, List.isEmpty_iff.mp hempty]
  · rw [trimEndBy_append hafter, trim, trimBy]

theorem Trimmed.trim_eq (htrimmed : Trimmed cs) : trim cs = cs := by
  have hfirst : cs.dropWhile isBlank = cs := by
    cases cs with
    | nil => rfl
    | cons c rest => exact List.dropWhile_cons_of_neg (by simp [htrimmed.first c rfl])
  rw [trim, trimBy, hfirst, trimEndBy_of_last htrimmed.last]

theorem head?_dropWhile (p : Char → Bool) (cs : List Char) :
    ∀ c ∈ (cs.dropWhile p).head?, p c = false := by
  intro c hc
  have hstop := List.head?_dropWhile_not p cs
  rw [Option.mem_def.mp hc] at hstop
  exact hstop

theorem trimmed_trim (cs : List Char) : Trimmed (trim cs) where
  first c hc := by
    obtain ⟨rest, hrest⟩ := trimEndBy_isPrefix isBlank (cs.dropWhile isBlank)
    refine head?_dropWhile isBlank cs c ?_
    rw [← hrest, List.head?_append]
    exact Option.or_eq_some_iff.mpr (.inl hc)
  last c hc := by
    rw [trim, trimBy, trimEndBy, List.getLast?_reverse] at hc
    exact head?_dropWhile isBlank _ c hc

/-- What trimming takes off are blanks. -/
theorem exists_blanks_trim (cs : List Char) :
    ∃ before after, Blank before ∧ Blank after ∧ cs = before ++ trim cs ++ after := by
  let kept := cs.dropWhile isBlank
  refine ⟨cs.takeWhile isBlank, (kept.reverse.takeWhile isBlank).reverse,
    fun c => List.mem_takeWhile_imp, fun c hc => ?_, ?_⟩
  · exact List.mem_takeWhile_imp (List.mem_reverse.mp hc)
  · have hback : trim cs ++ (kept.reverse.takeWhile isBlank).reverse = kept := by
      rw [trim, trimBy, trimEndBy, ← List.reverse_append, List.takeWhile_append_dropWhile,
        List.reverse_reverse]
    rw [List.append_assoc, hback, List.takeWhile_append_dropWhile]

theorem trim_of_blank (hblank : Blank cs) : trim cs = [] := by
  have htrim := @trim_append [] cs [] hblank (by simp [Blank])
  rwa [List.append_nil, List.append_nil] at htrim

theorem exists_trim_cons {c : Char} (hc : isBlank c = false) (cs : List Char) :
    ∃ rest, trim (c :: cs) = c :: rest := by
  rw [trim, trimBy, List.dropWhile_cons_of_neg (by simp [hc]), trimEndBy, List.reverse_cons,
    List.dropWhile_append]
  split
  · exact ⟨[], by simp [hc]⟩
  · exact ⟨_, by rw [List.reverse_append, List.reverse_singleton, List.singleton_append]⟩

end Text

end ImportCycles
