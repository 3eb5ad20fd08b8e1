import Mathlib.Data.Nat.Bitwise
import ImportCycles.Text.Lowercase

namespace ImportCycles

namespace Text

variable {c : Char} {m n : Nat} {ns : List Nat} {cs before : List Char} {r : CaseRange}

namespace CaseRange

/-- Where the lower case of a code point lies. -/
def image (r : CaseRange) (n : Nat) : Nat :=
  (n + r.delta).toNat

/-- The code points that a range gives the lower case of. -/
def points (r : CaseRange) : List Nat :=
  (List.range ((r.last - r.first) / r.step + 1)).map (r.first + r.step * ·)

theorem mem_points (hcovers : r.covers n = true) : n ∈ r.points := by
  simp only [covers, Bool.and_eq_true, decide_eq_true_eq, beq_iff_eq] at hcovers
  obtain ⟨⟨hfirst, hlast⟩, hstep⟩ := hcovers
  have hindex : (n - r.first) / r.step ≤ (r.last - r.first) / r.step :=
    Nat.div_le_div_right (Nat.sub_le_sub_right hlast r.first)
  have hplace : r.step * ((n - r.first) / r.step) = n - r.first :=
    Nat.mul_div_cancel' (Nat.dvd_of_mod_eq_zero hstep)
  refine List.mem_map.mpr ⟨_, List.mem_range.mpr (Nat.lt_succ_of_le hindex), ?_⟩
  rw [hplace, Nat.add_sub_cancel' hfirst]

/-- The lower case of a range lies among the code points of characters. -/
def Valid (r : CaseRange) : Prop :=
  0 ≤ r.first + r.delta ∧
    (r.last + r.delta < 0xD800 ∨ 0xDFFF < r.first + r.delta ∧ r.last + r.delta < 0x110000)

instance (r : CaseRange) : Decidable r.Valid :=
  inferInstanceAs (Decidable (_ ∧ _))

theorem valid_of_mem : ∀ r ∈ lowercaseRanges, r.Valid := by
  decide +kernel

theorem Valid.toNat_image (hvalid : r.Valid) (hcovers : r.covers n = true) :
    (Char.ofNat (r.image n)).toNat = r.image n := by
  obtain ⟨hpositive, hinside⟩ := hvalid
  simp only [covers, Bool.and_eq_true, decide_eq_true_eq] at hcovers
  have hchar : (r.image n).isValidChar := by
    unfold image Nat.isValidChar
    omega
  rw [Char.ofNat, dif_pos hchar]
  rfl

end CaseRange

/-- Some numbers, each as a bit of one number. Two long lists are compared at once that way. -/
def bitsOf (ns : List Nat) : Nat :=
  ns.foldr (fun n bits => bits ||| 2 ^ n) 0

theorem testBit_bitsOf : (bitsOf ns).testBit m = true ↔ m ∈ ns := by
  induction ns with
  | nil => simp [bitsOf]
  | cons n rest ih =>
    have hcons : bitsOf (n :: rest) = bitsOf rest ||| 2 ^ n := rfl
    rw [hcons, Nat.testBit_or, Bool.or_eq_true, ih, Nat.testBit_two_pow, decide_eq_true_eq,
      List.mem_cons, eq_comm, or_comm]

/-- Numbers without a common bit have no common member. -/
theorem notMem_of_land_eq_zero {others : List Nat} (hapart : bitsOf ns &&& bitsOf others = 0)
    (hn : n ∈ others) : n ∉ ns := by
  intro hmem
  have hboth : (bitsOf ns &&& bitsOf others).testBit n = true := by
    rw [Nat.testBit_and, testBit_bitsOf.mpr hmem, testBit_bitsOf.mpr hn, Bool.and_self]
  rw [hapart, Nat.zero_testBit] at hboth
  cases hboth

/-- The code points with a lower case of their own. The first is the dotted capital I, which has no
    range. -/
def casePoints : List Nat :=
  'İ'.toNat :: lowercaseRanges.flatMap CaseRange.points

/-- The code points that ranges lead to. -/
def caseImages : List Nat :=
  lowercaseRanges.flatMap fun r => r.points.map r.image

/-- No code point that a range leads to has a lower case of its own. -/
theorem caseImages_apart : bitsOf casePoints &&& bitsOf caseImages = 0 := by
  decide +kernel

/-- A character that is its own lower case in any text. -/
def IsLower (c : Char) : Prop :=
  c ≠ 'Σ' ∧ lowerChar c = [c]

instance (c : Char) : Decidable (IsLower c) :=
  inferInstanceAs (Decidable (_ ∧ _))

theorem isLower_of_uncovered (hdotted : c ≠ 'İ')
    (hnone : ∀ r ∈ lowercaseRanges, r.covers c.toNat = false) : IsLower c := by
  refine ⟨?_, ?_⟩
  · rintro rfl
    exact absurd hnone (by decide +kernel)
  · have hfind : lowercaseRanges.find? (·.covers c.toNat) = none :=
      List.find?_eq_none.mpr fun r hr => by simp [hnone r hr]
    rw [lowerChar, if_neg hdotted, hfind]

theorem isLower_of_notMem (hc : c.toNat ∉ casePoints) : IsLower c := by
  refine isLower_of_uncovered ?_ fun r hr => ?_
  · rintro rfl
    exact hc (.head _)
  · rw [← Bool.not_eq_true]
    intro hcovers
    exact hc (.tail _ (List.mem_flatMap.mpr ⟨r, hr, CaseRange.mem_points hcovers⟩))

/-- What lower case makes of a character is its own lower case. -/
theorem isLower_of_mem_lowerChar (c : Char) : ∀ d ∈ lowerChar c, IsLower d := by
  intro d hd
  rw [lowerChar] at hd
  split at hd
  · have hboth : IsLower 'i' ∧ IsLower (Char.ofNat 0x307) := by decide +kernel
    rcases List.mem_cons.mp hd with rfl | hmark
    · exact hboth.1
    · obtain rfl := List.mem_singleton.mp hmark
      exact hboth.2
  · rename_i hdotted
    cases hfind : lowercaseRanges.find? (·.covers c.toNat) with
    | none =>
      rw [hfind] at hd
      obtain rfl := List.mem_singleton.mp hd
      exact isLower_of_uncovered hdotted fun r hr => by
        simpa using List.find?_eq_none.mp hfind r hr
    | some r =>
      rw [hfind] at hd
      obtain rfl := List.mem_singleton.mp hd
      have hr := List.mem_of_find?_eq_some hfind
      have hcovers := List.find?_some hfind
      refine isLower_of_notMem (notMem_of_land_eq_zero caseImages_apart ?_)
      have himage := (CaseRange.valid_of_mem r hr).toNat_image hcovers
      rw [CaseRange.image] at himage
      rw [himage]
      exact List.mem_flatMap.mpr ⟨r, hr, List.mem_map_of_mem (CaseRange.mem_points hcovers)⟩

/-- So is what it makes of a text, the two forms of sigma included. -/
theorem isLower_of_mem_lowerAfter : ∀ c ∈ lowerAfter before cs, IsLower c := by
  have hsigmas : IsLower 'ς' ∧ IsLower 'σ' := by decide +kernel
  induction cs generalizing before with
  | nil => simp [lowerAfter]
  | cons first rest ih =>
    rw [lowerAfter, List.forall_mem_append]
    refine ⟨?_, ih⟩
    split
    · split
      · simpa using hsigmas.1
      · simpa using hsigmas.2
    · exact isLower_of_mem_lowerChar first

theorem lowerAfter_cons (hc : IsLower c) :
    lowerAfter before (c :: cs) = c :: lowerAfter (c :: before) cs := by
  rw [lowerAfter, if_neg hc.1, hc.2, List.singleton_append]

theorem lowerAfter_of_isLower (hcs : ∀ c ∈ cs, IsLower c) : lowerAfter before cs = cs := by
  induction cs generalizing before with
  | nil => rfl
  | cons c rest ih =>
    obtain ⟨hc, hrest⟩ := List.forall_mem_cons.mp hcs
    rw [lowerAfter_cons hc, ih hrest]

/-- The lower case of a text is its own lower case. -/
theorem lower_lower (s : String) : lower (lower s) = lower s := by
  rw [lower, lower, String.toList_ofList, lowerAfter_of_isLower isLower_of_mem_lowerAfter]

end Text

end ImportCycles
