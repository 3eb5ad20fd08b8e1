import ImportCycles.Proofs.Audit.Cyclers
import ImportCycles.Proofs.Graph.Filling

open Relation (ReflTransGen)

namespace ImportCycles

namespace Route

/-- A route says where its first name ends if that name is plain. -/
theorem split_join_head? {first second : String} {more : List String} (hplain : Plain first) :
    (split (join (first :: second :: more))).head? = some first := by
  have hnonempty : join (first :: second :: more) ≠ "" :=
    fun hempty => by simpa using join_eq_empty_iff.mp hempty
  have hchars : (join (first :: second :: more)).toList =
      first.toList ++ (arrow.toList ++ (join (second :: more)).toList) := by
    simp [join, String.intercalate_cons_cons]
  rw [split, if_neg (by simpa using hnonempty), hchars,
    pieces_append_arrow hplain.noArrow hplain.noArrowHead]
  simp

end Route

theorem Circuit.split_join_head? {edges : Table} {cycle : List String} {first : String}
    (hcircuit : Circuit edges cycle) (hhead : cycle.head? = some first)
    (hplain : Route.Plain first) : (Route.split (Route.join cycle)).head? = some first := by
  obtain ⟨⟨start, others, rfl⟩, -⟩ := hcircuit
  obtain rfl : start = first := by simpa using hhead
  cases others with
  | nil => exact Route.split_join_head? hplain
  | cons next rest => exact Route.split_join_head? hplain

namespace Graph

variable {allowCycles : Bool} {g : Graph}

theorem Serial.addAll (hserial : Serial allowCycles g) (edges : List (String × String)) :
    Serial allowCycles (g.addAll edges).2 := by
  induction edges using List.reverseRecOn with
  | nil => exact hserial
  | append_singleton edges edge ih =>
    rw [addAll_concat]
    exact ReflTransGen.tail ih (.add _ edge.1 edge.2)

/-- The traces are the texts of the claims, each text once. -/
theorem Reachable.cycles_perm (hreach : Reachable allowCycles g) :
    g.cycles.Perm (g.findings.claims.items.map Route.join).dedup := by
  refine (List.perm_ext_iff_of_nodup hreach.nodup_cycles (List.nodup_dedup _)).mpr fun trace => ?_
  rw [hreach.wellFormed.mem_cycles_iff, List.mem_dedup, List.mem_map]

/-- No claim is swallowed exactly if no two claims have the same text. -/
theorem Reachable.length_cycles_eq_iff (hreach : Reachable allowCycles g) :
    g.cycles.length = g.findings.claims.items.length ↔
      Set.InjOn Route.join {cycle | cycle ∈ g.findings.claims.items} := by
  have hclaims : g.findings.claims.items.Nodup := .of_map _ hreach.wellFormed.nodup_keys_claims
  have hsublist := List.dedup_sublist (g.findings.claims.items.map Route.join)
  calc g.cycles.length = g.findings.claims.items.length
      ↔ (g.findings.claims.items.map Route.join).dedup.length =
          (g.findings.claims.items.map Route.join).length := by
        rw [hreach.cycles_perm.length_eq, List.length_map]
    _ ↔ (g.findings.claims.items.map Route.join).Nodup := by
        rw [← List.dedup_eq_self]
        exact ⟨hsublist.eq_of_length, fun heq => by rw [heq]⟩
    _ ↔ Set.InjOn Route.join {cycle | cycle ∈ g.findings.claims.items} :=
        List.nodup_map_iff_inj_on hclaims

/-- Claims of plain names have texts of their own. -/
theorem WellFormed.injOn_join (hwell : g.WellFormed)
    (hplain : ∀ cycle ∈ g.findings.claims.items, ∀ unit ∈ cycle, Route.Plain unit) :
    Set.InjOn Route.join {cycle | cycle ∈ g.findings.claims.items} := by
  have hsplit : ∀ cycle ∈ g.findings.claims.items, Route.split (Route.join cycle) = cycle := by
    intro cycle hcycle
    obtain ⟨first, others, heq⟩ := (hwell.findings.claimsSimple cycle hcycle).closed
    exact Route.split_join_of_plain (by simp [heq]) (by simp [heq]) (hplain cycle hcycle)
  intro cycle hcycle other hother hsame
  rw [← hsplit cycle hcycle, hsame, hsplit other hother]

/-- Where the tasks of the audits run one after another, claims that start at plain names have texts
    of their own: the text tells the first unit, which no other claim starts at. -/
theorem Serial.injOn_join (hserial : Serial allowCycles g)
    (hplain : ∀ unit ∈ g.knownCyclers, Route.Plain unit) :
    Set.InjOn Route.join {cycle | cycle ∈ g.findings.claims.items} := by
  have hfirst : ∀ cycle ∈ g.findings.claims.items,
      (Route.split (Route.join cycle)).headD "" = cycle.headD "" := by
    intro cycle hcycle
    have hcircuit := (hserial.matched.simple cycle hcycle).toCircuit
    obtain ⟨first, others, heq⟩ := hcircuit.closed
    have hhead : cycle.head? = some first := by rw [heq, List.head?_cons]
    have hknown := (hserial.matched.mem_known_iff first).mpr ⟨cycle, hcycle, hhead⟩
    have htext := hcircuit.split_join_head? hhead (hplain first (mem_knownCyclers.mpr hknown))
    rw [List.headD_eq_head?_getD, List.headD_eq_head?_getD, htext, hhead]
  intro cycle hcycle other hother hsame
  refine hserial.bijOn_first.injOn hcycle hother ?_
  calc cycle.headD "" = (Route.split (Route.join cycle)).headD "" := (hfirst cycle hcycle).symm
    _ = (Route.split (Route.join other)).headD "" := by rw [hsame]
    _ = other.headD "" := hfirst other hother

/-- How many of the claimed cycles are reported. After any history of calls, however the tasks of
    its audits took turns, the traces are the texts of the claims without repetitions, so there are
    as many traces as claims exactly if all claims have different texts. They do if all units of
    claimed cycles are plain, and after audits whose tasks ran one after another already if the
    known cyclers are. -/
theorem traces_of_claims (hreach : Reachable allowCycles g) :
    g.cycles.Perm (g.findings.claims.items.map Route.join).dedup ∧
    g.cycles.length ≤ g.findings.claims.items.length ∧
    (g.cycles.length = g.findings.claims.items.length ↔
      Set.InjOn Route.join {cycle | cycle ∈ g.findings.claims.items}) ∧
    ((∀ cycle ∈ g.findings.claims.items, ∀ unit ∈ cycle, Route.Plain unit) →
      g.cycles.length = g.findings.claims.items.length) ∧
    (Serial allowCycles g → (∀ unit ∈ g.knownCyclers, Route.Plain unit) →
      g.cycles.length = g.findings.claims.items.length) := by
  refine ⟨hreach.cycles_perm, ?_, hreach.length_cycles_eq_iff, fun hplain => ?_,
    fun hserial hplain => ?_⟩
  · rw [hreach.cycles_perm.length_eq, ← List.length_map Route.join]
    exact (List.dedup_sublist _).length_le
  · exact hreach.length_cycles_eq_iff.mpr (hreach.wellFormed.injOn_join hplain)
  · exact hreach.length_cycles_eq_iff.mpr (hserial.injOn_join hplain)

/-- A cycle through a name that holds an arrow, closed at its plain unit, and a loop. -/
def arrowInside : Graph :=
  ((empty true).addAll [("0", "a"), ("a", "b -> c"), ("b -> c", "a"), ("d", "d")]).2.auditInOrder
    ["0", "a", "b -> c", "d"]

theorem traces_of_claims_arrowInside :
    Serial true arrowInside ∧ ¬ Route.Plain "b -> c" ∧
      arrowInside.findings.claims.items = [["a", "b -> c", "a"], ["d", "d"]] ∧
      arrowInside.cycles.length = 2 := by
  have hserial : Serial true arrowInside :=
    (Serial.addAll ReflTransGen.refl _).tail (.audit _ (by decide))
  obtain ⟨-, -, -, -, hequal⟩ := traces_of_claims hserial.reachable
  have hclaims : arrowInside.findings.claims.items = [["a", "b -> c", "a"], ["d", "d"]] := by
    decide
  refine ⟨hserial, by decide, hclaims, ?_⟩
  rw [hequal hserial (by decide), hclaims]
  rfl

/-- A cycle and a loop whose names hold arrows in such places that they have one text. -/
def sameText : Graph :=
  ((empty true).addAll [("0", "a"), ("a", "b -> a -> a -> b"), ("b -> a -> a -> b", "a"),
    ("a -> b -> a", "a -> b -> a")]).2.auditInOrder
      ["0", "a", "a -> b -> a", "b -> a -> a -> b"]

/-- Of two claims that are no rotations of one another only one trace is left. -/
theorem sameText_swallows :
    Serial true sameText ∧
      sameText.findings.claims.items =
        [["a", "b -> a -> a -> b", "a"], ["a -> b -> a", "a -> b -> a"]] ∧
      ¬ ["a", "b -> a -> a -> b"].IsRotated ["a -> b -> a"] ∧
      sameText.cycles = ["a -> b -> a -> a -> b -> a"] := by
  have hserial : Serial true sameText :=
    (Serial.addAll ReflTransGen.refl _).tail (.audit _ (by decide))
  refine ⟨hserial, by decide, fun hrotated => ?_, by decide⟩
  simpa using hrotated.perm.length_eq

end Graph

end ImportCycles
