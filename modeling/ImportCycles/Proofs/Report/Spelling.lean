import ImportCycles.Report.Text
import ImportCycles.Proofs.Json.Written
import ImportCycles.Proofs.Report.Reading

namespace ImportCycles

/-- All characters of a text are among those that fit. -/
def Spelled (fits : Char → Prop) (text : String) : Prop :=
  ∀ c ∈ text.toList, fits c

variable {fits : Char → Prop}

@[simp] theorem spelled_append {text more : String} :
    Spelled fits (text ++ more) ↔ Spelled fits text ∧ Spelled fits more := by
  simp [Spelled, or_imp, forall_and]

theorem spelled_intercalate {sep : String} {texts : List String} (hsep : Spelled fits sep) :
    Spelled fits (sep.intercalate texts) ↔ ∀ text ∈ texts, Spelled fits text := by
  unfold Spelled
  rw [String.toList_intercalate]
  constructor
  · intro hall text htext c hc
    exact hall c ((infix_intercalate (List.mem_map_of_mem htext)).subset hc)
  · intro htexts
    exact forall_mem_intercalate hsep (List.forall_mem_map.mpr htexts)

section Ascii

variable (hascii : ∀ c : Char, c.toNat < 128 → fits c)

include hascii

theorem Spelled.of_isAscii {text : String} (htext : Json.IsAscii text.toList) : Spelled fits text :=
  fun c hc => hascii c (htext c hc)

/-- A part in ASCII cannot keep a text from being spelled. -/
theorem spelled_ascii_append {text more : String} (htext : Json.IsAscii text.toList) :
    Spelled fits (text ++ more) ↔ Spelled fits more :=
  spelled_append.trans (and_iff_right (.of_isAscii hascii htext))

theorem spelled_append_ascii {text more : String} (hmore : Json.IsAscii more.toList) :
    Spelled fits (text ++ more) ↔ Spelled fits text :=
  spelled_append.trans (and_iff_left (.of_isAscii hascii hmore))

theorem spelled_toString (n : Nat) : Spelled fits (toString n) :=
  .of_isAscii hascii fun _ hc => Report.lt_of_isIdChar (Report.isIdChar_of_mem_toString hc)

theorem spelled_join {units : List String} :
    Spelled fits (Route.join units) ↔ ∀ unit ∈ units, Spelled fits unit :=
  spelled_intercalate (.of_isAscii hascii (by decide))

theorem spelled_of_mem_split {route unit : String} (hroute : Spelled fits route)
    (hunit : unit ∈ Route.split route) : Spelled fits unit := by
  rw [← Route.join_split route, spelled_join hascii] at hroute
  exact hroute unit hunit

namespace Report

variable {cycles rejected traces units : List String} {orientation : String} {onlyCycles : Bool}
  {links : List (String × String)} {red : List Nat}

theorem spelled_indented (htraces : ∀ trace ∈ traces, Spelled fits trace) :
    ∀ line ∈ indented traces, Spelled fits line :=
  List.forall_mem_map.mpr fun trace htrace =>
    (spelled_ascii_append hascii (by decide)).mpr (htraces trace htrace)

theorem spelled_text (hcycles : ∀ trace ∈ cycles, Spelled fits trace)
    (hrejected : ∀ trace ∈ rejected, Spelled fits trace) : Spelled fits (text cycles rejected) := by
  have hcounted : ∀ (n : Nat) {wording : String}, Json.IsAscii wording.toList →
      Spelled fits (toString n ++ wording) := fun n _ hwording =>
    (spelled_append_ascii hascii hwording).mpr (spelled_toString hascii n)
  rw [text, spelled_intercalate (.of_isAscii hascii (by decide)), List.forall_mem_append]
  constructor
  · unfold cycleLines
    split
    · exact List.forall_mem_singleton.mpr (.of_isAscii hascii (by decide))
    · refine List.forall_mem_cons.mpr ⟨hcounted _ (by decide), spelled_indented hascii ?_⟩
      exact fun trace htrace => hcycles trace (mem_sortNames.mp htrace)
  · unfold rejectedLines
    split
    · exact nofun
    · refine List.forall_mem_cons.mpr ⟨.of_isAscii hascii (by decide), ?_⟩
      refine List.forall_mem_cons.mpr ⟨hcounted _ (by decide), spelled_indented hascii ?_⟩
      exact fun trace htrace => hrejected trace (mem_sortDistinct.mp htrace)

theorem spelled_json (g : Graph) (cycles rejected : List String) (indent : Option Int)
    (includeGraph : Bool) : Spelled fits (json g cycles rejected indent includeGraph) := by
  refine .of_isAscii hascii ?_
  rw [json, Json.render, String.toList_ofList]
  exact Json.isAscii_write _ 0

/-- The nodes of a chart are spelled if their labels are. -/
theorem spelled_nodeLines : (∀ line ∈ nodeLines (assignIds (endpoints links)), Spelled fits line) ↔
    ∀ name ∈ endpoints links, Spelled fits name := by
  rw [nodeLines, List.forall_mem_map]
  simp (disch := decide) only [spelled_append_ascii hascii, spelled_ascii_append hascii,
    spelled_append]
  constructor
  · intro hlines name hname
    rw [← (assigned_assignIds (endpoints links)).keys_eq] at hname
    obtain ⟨entry, hentry, rfl⟩ := List.mem_map.mp hname
    exact (hlines entry hentry).2
  · rintro hnames ⟨name, id⟩ hentry
    have hname := mem_of_mem_assignIds hentry
    have hid := identifier_idOf (nodup_endpoints links) hname
    rw [idOf_of_mem (nodup_endpoints links) hentry] at hid
    exact ⟨.of_isAscii hascii hid.ascii, hnames name hname⟩

/-- Of a chart only the orientation and the names may fail to be spelled. -/
theorem spelled_chart (hunits : units ⊆ endpoints links) :
    Spelled fits (chart orientation links red units) ↔
      Spelled fits orientation ∧ ∀ name ∈ endpoints links, Spelled fits name := by
  let ids := assignIds (endpoints links)
  have hid : ∀ name ∈ endpoints links, Spelled fits (idOf ids name) := fun name hname =>
    .of_isAscii hascii (identifier_idOf (nodup_endpoints links) hname).ascii
  have hlinks : ∀ line ∈ linkLines ids links, Spelled fits line := by
    refine List.forall_mem_map.mpr fun edge hedge => ?_
    simp (disch := decide) only [spelled_append_ascii hascii, spelled_ascii_append hascii,
      spelled_append]
    exact ⟨hid _ (mem_endpoints.mpr ⟨edge, hedge, .inl rfl⟩),
      hid _ (mem_endpoints.mpr ⟨edge, hedge, .inr rfl⟩)⟩
  have hcolours : ∀ line ∈ colourLines ids red units, Spelled fits line := by
    unfold colourLines
    split
    · exact nofun
    · have hpositions : Spelled fits (",".intercalate (red.map toString)) :=
        (spelled_intercalate (.of_isAscii hascii (by decide))).mpr
          (List.forall_mem_map.mpr fun n _ => spelled_toString hascii n)
      simp (disch := decide) only [List.cons_append, List.nil_append, List.forall_mem_cons,
        List.forall_mem_map, spelled_append_ascii hascii, spelled_ascii_append hascii]
      exact ⟨.of_isAscii hascii (by decide), .of_isAscii hascii (by decide), hpositions,
        fun unit hunit => hid unit (hunits hunit)⟩
  have hgap : ∀ line ∈ if links.isEmpty then [] else [""], Spelled fits line := by
    split
    · exact nofun
    · exact List.forall_mem_singleton.mpr (.of_isAscii hascii (by decide))
  have hheader : Spelled fits ("flowchart " ++ orientation) ↔ Spelled fits orientation :=
    spelled_ascii_append hascii (by decide)
  rw [chart_eq, spelled_intercalate (.of_isAscii hascii (by decide))]
  simp only [List.forall_mem_cons, List.forall_mem_append, hheader, spelled_nodeLines hascii]
  exact and_congr_right fun _ => and_iff_left ⟨hgap, hlinks, hcolours⟩

/-- A chart of spelled cycles is spelled if it has a spelled orientation, unless it draws the whole
    graph with names that are not. -/
theorem spelled_flowchart {g : Graph} (hcycles : ∀ trace ∈ cycles, Spelled fits trace) :
    Spelled fits (flowchart g cycles orientation onlyCycles) ↔
      Spelled fits orientation ∧
        (onlyCycles = false → ∀ edge ∈ g.edges, Spelled fits edge.1 ∧ Spelled fits edge.2) := by
  have hsteps : ∀ name ∈ endpoints (cycleEdges cycles), Spelled fits name := by
    intro name hname
    obtain ⟨⟨a, b⟩, hstep, hend⟩ := mem_endpoints.mp hname
    obtain ⟨trace, htrace, hstep⟩ := mem_cycleEdges.mp hstep
    obtain ⟨ha, hb⟩ := List.of_mem_zip hstep
    rcases hend with rfl | rfl
    · exact spelled_of_mem_split hascii (hcycles trace htrace) ha
    · exact spelled_of_mem_split hascii (hcycles trace htrace) (List.mem_of_mem_tail hb)
  have hred : ∀ links, redUnits links (cycleEdges cycles) ⊆ endpoints links :=
    fun links unit hunit => List.contains_iff_mem.mp (List.mem_filter.mp hunit).2
  rw [flowchart_eq_chart]
  dsimp only
  rw [spelled_chart hascii (hred _)]
  refine and_congr_right fun _ => ?_
  cases onlyCycles with
  | true => exact iff_of_true hsteps nofun
  | false =>
    simp only [mem_endpoints, if_false, forall_const, Bool.false_eq_true]
    constructor
    · intro hends edge hedge
      exact ⟨hends _ ⟨edge, hedge, .inl rfl⟩, hends _ ⟨edge, hedge, .inr rfl⟩⟩
    · rintro hedges name ⟨edge, hedge, rfl | rfl⟩
      · exact (hedges edge hedge).1
      · exact (hedges edge hedge).2

end Report

end Ascii

end ImportCycles
