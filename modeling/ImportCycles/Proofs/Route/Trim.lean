import Mathlib.Data.List.TakeWhile
import ImportCycles.Proofs.Route
import ImportCycles.Proofs.Graph.Cycle

namespace ImportCycles

namespace Route

variable {route offender trimmed unit : String} {units before after path : List String}

theorem trimTo_of_empty (hempty : route = "" ∨ offender = "") :
    trimTo route offender = .error .emptyArgument := by
  rw [trimTo, if_pos]
  simpa using hempty

theorem trimTo_of_notMem (hroute : route ≠ "") (hoffender : offender ≠ "")
    (hmissing : offender ∉ split route) :
    trimTo route offender = .error (.unitNotFound offender) := by
  have hall : (split route).dropWhile (· != offender) = [] := by
    rw [List.dropWhile_eq_nil_iff]
    intro name hname
    exact bne_iff_ne.mpr fun heq => hmissing (heq ▸ hname)
  rw [trimTo, if_neg (by simpa using ⟨hroute, hoffender⟩), hall]

theorem dropWhile_ne (hfirst : unit ∉ before) :
    (before ++ unit :: after).dropWhile (· != unit) = unit :: after := by
  rw [List.dropWhile_append_of_pos]
  · simp
  · intro name hname
    exact bne_iff_ne.mpr fun heq => hfirst (heq ▸ hname)

theorem trimTo_of_split (hoffender : offender ≠ "")
    (hsplit : split route = before ++ offender :: after) (hfirst : offender ∉ before) :
    trimTo route offender = .ok (join (offender :: after)) := by
  have hroute : route ≠ "" := by
    rintro rfl
    exact List.append_ne_nil_of_right_ne_nil before (List.cons_ne_nil _ _) hsplit.symm
  rw [trimTo, if_neg (by simpa using ⟨hroute, hoffender⟩), hsplit, dropWhile_ne hfirst]

/-- Trimming succeeds exactly at a name of the route, and keeps what starts at its first
    occurrence. -/
theorem trimTo_eq_ok_iff :
    trimTo route offender = .ok trimmed ↔
      offender ≠ "" ∧ ∃ before after, split route = before ++ offender :: after ∧
        offender ∉ before ∧ trimmed = join (offender :: after) := by
  constructor
  · intro htrim
    by_cases hempty : route = "" ∨ offender = ""
    · rw [trimTo_of_empty hempty] at htrim
      cases htrim
    obtain ⟨hroute, hoffender⟩ := not_or.mp hempty
    by_cases hmem : offender ∈ split route
    · obtain ⟨before, after, hsplit, hfirst⟩ := List.eq_append_cons_of_mem hmem
      rw [trimTo_of_split hoffender hsplit hfirst] at htrim
      cases htrim
      exact ⟨hoffender, before, after, hsplit, hfirst, rfl⟩
    · rw [trimTo_of_notMem hroute hoffender hmem] at htrim
      cases htrim
  · rintro ⟨hoffender, before, after, hsplit, hfirst, rfl⟩
    exact trimTo_of_split hoffender hsplit hfirst

/-- The last names of a route are the names of the route they make up. -/
theorem split_join_of_split (hsplit : split route = before ++ offender :: after)
    (hoffender : offender ≠ "") : split (join (offender :: after)) = offender :: after := by
  obtain ⟨hfree, hend⟩ := @noArrow_of_split route
  rw [hsplit] at hfree hend
  rw [List.dropLast_append_of_ne_nil (List.cons_ne_nil _ _)] at hend
  refine split_join (List.cons_ne_nil _ _) ?_ ?_ ?_
  · exact fun h => hoffender (List.cons.inj h).1
  · exact fun name hname => hfree name (List.mem_append_right _ hname)
  · exact fun name hname => hend name (List.mem_append_right _ hname)

/-- Cut before one of its names, a route falls apart at an arrow. -/
theorem eq_or_eq_append_arrow (hsplit : split route = before ++ offender :: after) :
    route = join (offender :: after) ∨
      route = join before ++ arrow ++ join (offender :: after) := by
  have hroute := join_split route
  rw [hsplit] at hroute
  cases before with
  | nil => exact .inl hroute.symm
  | cons first others =>
    rw [join, String.intercalate_append_of_ne_nil (List.cons_ne_nil _ _) (List.cons_ne_nil _ _)]
      at hroute
    exact .inr hroute.symm

theorem drop_idxOf (hfirst : unit ∉ before) :
    (before ++ unit :: after).drop ((before ++ unit :: after).idxOf unit) = unit :: after := by
  rw [List.idxOf_append_of_notMem hfirst, List.idxOf_cons_self, Nat.add_zero, List.drop_left]

theorem trimTo_join (hplain : ∀ name ∈ units, name ≠ "" ∧ Plain name) (hunit : unit ∈ units) :
    trimTo (join units) unit = .ok (join (units.drop (units.idxOf unit))) := by
  obtain ⟨before, after, rfl, hfirst⟩ := List.eq_append_cons_of_mem hunit
  have hnot : before ++ unit :: after ≠ [""] := by
    intro hsingle
    have hempty : unit = "" := by simpa [hsingle] using hunit
    exact (hplain unit hunit).1 hempty
  have hsplit := split_join_of_plain (List.ne_nil_of_mem hunit) hnot
    fun name hname => (hplain name hname).2
  rw [drop_idxOf hfirst]
  exact trimTo_of_split (hplain unit hunit).1 hsplit hfirst

/-- The cycle that a walk closes is its path, oldest unit first, from the unit that the last edge
    leads back to. No unit is on a path twice, so the first occurrence is the only one. -/
theorem closing_eq_drop (hnodup : path.Nodup) (hunit : unit ∈ path) :
    Walk.closing unit path =
      (path.reverse ++ [unit]).drop ((path.reverse ++ [unit]).idxOf unit) := by
  obtain ⟨newer, older, rfl, hnewer⟩ := List.eq_append_cons_of_mem hunit
  have holder : unit ∉ older.reverse := by
    rw [List.mem_reverse]
    exact (List.nodup_cons.mp (List.nodup_append.mp hnodup).2.1).1
  have hpath : (newer ++ unit :: older).reverse ++ [unit] =
      older.reverse ++ unit :: (newer.reverse ++ [unit]) := by simp
  rw [hpath, drop_idxOf holder, Walk.closing_append hnewer]

/-- Trimming is refused exactly if an argument is empty or the offender is no name of the route. A
    trimmed route is the end of the route behind an arrow, or all of it; its names are those of the
    route from the first occurrence of the offender on, and it cannot be trimmed further. A route of
    plain names is trimmed as their list is, which is also how a walk trims its path when an edge
    leads back to a unit on it. -/
theorem trimTo_exact :
    (∀ route offender,
      (trimTo route offender = .error .emptyArgument ↔ route = "" ∨ offender = "") ∧
      (∀ unit, trimTo route offender = .error (.unitNotFound unit) ↔
        unit = offender ∧ route ≠ "" ∧ offender ≠ "" ∧ offender ∉ split route) ∧
      ((∃ trimmed, trimTo route offender = .ok trimmed) ↔
        route ≠ "" ∧ offender ≠ "" ∧ offender ∈ split route)) ∧
    (∀ route offender trimmed, trimTo route offender = .ok trimmed →
      (route = trimmed ∨ ∃ front, route = front ++ arrow ++ trimmed) ∧
      split trimmed = (split route).drop ((split route).idxOf offender) ∧
      trimTo trimmed offender = .ok trimmed) ∧
    (∀ units : List String, (∀ name ∈ units, name ≠ "" ∧ Plain name) → ∀ unit ∈ units,
      trimTo (join units) unit = .ok (join (units.drop (units.idxOf unit)))) ∧
    ∀ path : List String, (∀ name ∈ path, name ≠ "" ∧ Plain name) → path.Nodup →
      ∀ unit ∈ path,
        trimTo (join (path.reverse ++ [unit])) unit = .ok (join (Walk.closing unit path)) := by
  refine ⟨fun route offender => ?_, ?_, fun units hplain unit => trimTo_join hplain, ?_⟩
  · by_cases hempty : route = "" ∨ offender = ""
    · simp only [trimTo_of_empty hempty]
      grind
    obtain ⟨hroute, hoffender⟩ := not_or.mp hempty
    by_cases hmem : offender ∈ split route
    · obtain ⟨before, after, hsplit, hfirst⟩ := List.eq_append_cons_of_mem hmem
      simp [trimTo_of_split hoffender hsplit hfirst, hroute, hoffender, hmem]
    · simp [trimTo_of_notMem hroute hoffender hmem, hroute, hoffender, hmem, eq_comm]
  · intro route offender trimmed htrim
    obtain ⟨hoffender, before, after, hsplit, hfirst, rfl⟩ := trimTo_eq_ok_iff.mp htrim
    have hnames := split_join_of_split hsplit hoffender
    refine ⟨(eq_or_eq_append_arrow hsplit).imp_right fun h => ⟨_, h⟩, ?_, ?_⟩
    · rw [hnames, hsplit, drop_idxOf hfirst]
    · exact trimTo_of_split hoffender (hnames.trans (List.nil_append _).symm) List.not_mem_nil
  · intro path hplain hnodup unit hunit
    have hclosed : ∀ name ∈ path.reverse ++ [unit], name ≠ "" ∧ Plain name := by
      intro name hname
      rw [List.mem_append, List.mem_reverse, List.mem_singleton] at hname
      exact hplain name (hname.elim id fun heq => heq ▸ hunit)
    rw [closing_eq_drop hnodup hunit]
    exact trimTo_join hclosed (by simp)

/-- A name inside a longer name does not count; the last name of a route may end with the head of
    an arrow; and a walk of which only the newest two units are on the cycle. -/
theorem trimTo_exact_insideName :
    split "b -> c ->" = (split "ab -> b -> c ->").drop 1 ∧
      trimTo "b -> c ->" "b" = .ok "b -> c ->" ∧
      trimTo "x -> ab -> b -> ab" "ab" = .ok (join (Walk.closing "ab" ["b", "ab", "x"])) := by
  obtain ⟨-, htrimmed, -, hwalk⟩ := trimTo_exact
  have htrim : trimTo "ab -> b -> c ->" "b" = .ok "b -> c ->" := by decide
  obtain ⟨-, hnames, hagain⟩ := htrimmed "ab -> b -> c ->" "b" "b -> c ->" htrim
  exact ⟨hnames, hagain, hwalk ["b", "ab", "x"] (by decide) (by decide) "ab" (by decide)⟩

end Route

end ImportCycles
