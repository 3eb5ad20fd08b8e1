import ImportCycles.Proofs.Intercalate
import ImportCycles.Proofs.Report.Identifier

namespace ImportCycles

namespace Report

/-- What a line of a chart can say. -/
inductive Statement where
  | node (id label : String)
  | link (source target : String)
  | linkStyle (positions : List Nat)
  | style (id : String)
  deriving Repr, DecidableEq

namespace Statement

def number? (digits : List Char) : Option Nat :=
  if digits ≠ [] ∧ digits.all Char.isDigit then some (Nat.ofDigitChars 10 digits 0) else none

/-- The numbers of a list such as `0,2,5`. -/
def positions? (list : List Char) : Option (List Nat) :=
  (list.splitOn ',').mapM number?

/-- A statement by its first word and the rest of the line. A bracket opens a label and an arrow
    leads to a node; else the word is a command, and its subject stands before the next blank. -/
def ofWord? (word : List Char) : List Char → Option Statement
  | '[' :: '"' :: rest =>
    (rest.dropSuffix? ['"', ']']).map fun label => .node (.ofList word) (.ofList label)
  | ' ' :: '-' :: '-' :: '>' :: ' ' :: target => some (.link (.ofList word) (.ofList target))
  | ' ' :: rest =>
    let subject := rest.takeWhile (· != ' ')
    if word = "style".toList then some (.style (.ofList subject))
    else if word = "linkStyle".toList then (positions? subject).map .linkStyle
    else none
  | _ => none

/-- The statement of an indented line. Blank lines and comments say nothing. -/
def read? (line : List Char) : Option Statement :=
  let content := line.dropWhile (· == ' ')
  ofWord? (content.takeWhile isIdChar) (content.dropWhile isIdChar)

end Statement

/-- The statements of a chart, below its header. -/
def statements (text : String) : List Statement :=
  (text.toList.splitOn '\n').tail.filterMap Statement.read?

section Lines

variable {id name source target : String} {rest : List Char} {red : List Nat}

/-- A line that starts with an identifier, and goes on with a mark that cannot belong to it. -/
theorem read?_of_identifier (hid : Identifier id) {mark : Char} (hmark : isIdChar mark = false) :
    Statement.read? ("    ".toList ++ id.toList ++ mark :: rest) =
      Statement.ofWord? id.toList (mark :: rest) := by
  obtain ⟨first, others, hchars, -⟩ := hid.startsWithLetter
  have hallowed : ∀ c ∈ id.toList, isIdChar c = true := fun c hc =>
    isIdChar_iff.mpr (hid.allowed c hc)
  have hfirst : (first == ' ') = false := by
    have hletter : isIdChar first = true := hallowed first (by simp [hchars])
    rw [beq_eq_false_iff_ne]
    rintro rfl
    exact absurd hletter (by decide)
  have hcontent : ("    ".toList ++ id.toList ++ mark :: rest).dropWhile (· == ' ') =
      id.toList ++ mark :: rest := by
    rw [hchars]
    simp [hfirst]
  simp only [Statement.read?, hcontent]
  rw [List.takeWhile_append_of_pos hallowed, List.dropWhile_append_of_pos hallowed,
    List.takeWhile_cons_of_neg (by simp [hmark]), List.dropWhile_cons_of_neg (by simp [hmark]),
    List.append_nil]

theorem read?_nodeLine (hid : Identifier id) (name : String) :
    Statement.read? ("    " ++ id ++ "[\"" ++ name ++ "\"]").toList = some (.node id name) := by
  have hlabel : (name.toList ++ ['"', ']']).dropSuffix? ['"', ']'] = some name.toList :=
    List.dropSuffix?_eq_some_iff.mpr ⟨_, rfl, by decide⟩
  have hline : ("    " ++ id ++ "[\"" ++ name ++ "\"]").toList =
      "    ".toList ++ id.toList ++ '[' :: '"' :: (name.toList ++ ['"', ']']) := by
    simp
  rw [hline, read?_of_identifier hid (by decide), Statement.ofWord?, hlabel]
  simp

theorem read?_linkLine (hsource : Identifier source) (target : String) :
    Statement.read? ("    " ++ source ++ " --> " ++ target).toList =
      some (.link source target) := by
  have hline : ("    " ++ source ++ " --> " ++ target).toList =
      "    ".toList ++ source.toList ++ ' ' :: '-' :: '-' :: '>' :: ' ' :: target.toList := by
    simp
  rw [hline, read?_of_identifier hsource (by decide), Statement.ofWord?]
  simp

theorem not_blank_of_isIdChar {c : Char} (hallowed : isIdChar c = true) : c ≠ ' ' ∧ c ≠ '-' := by
  constructor
  · rintro rfl
    exact absurd hallowed (by decide)
  · rintro rfl
    exact absurd hallowed (by decide)

/-- A word before a blank that leads to no arrow is a command. -/
theorem ofWord?_command (word : List Char) {subject : List Char} (look : List Char)
    (hsubject : ∀ c ∈ subject, c ≠ ' ' ∧ c ≠ '-') :
    Statement.ofWord? word (' ' :: (subject ++ ' ' :: look)) =
      if word = "style".toList then some (.style (.ofList subject))
      else if word = "linkStyle".toList then (Statement.positions? subject).map .linkStyle
      else none := by
  have htake : (subject ++ ' ' :: look).takeWhile (· != ' ') = subject := by
    rw [List.takeWhile_append_of_pos]
    · simp
    · exact fun c hc => bne_iff_ne.mpr (hsubject c hc).1
  rw [Statement.ofWord?]
  · rw [htake]
  · intro target harrow
    cases subject with
    | nil => cases harrow
    | cons first rest => exact (hsubject first (.head _)).2 (List.cons.inj harrow).1

theorem read?_styleLine (hid : Identifier id) :
    Statement.read? ("    style " ++ id ++ " stroke:#ff0000").toList = some (.style id) := by
  have hline : ("    style " ++ id ++ " stroke:#ff0000").toList =
      "    ".toList ++ "style".toList ++ ' ' :: (id.toList ++ ' ' :: "stroke:#ff0000".toList) := by
    simp
  have hword : Identifier "style" := identifier_of_chars rfl (by decide) (by decide)
  have hsubject : ∀ c ∈ id.toList, c ≠ ' ' ∧ c ≠ '-' := fun c hc =>
    not_blank_of_isIdChar (isIdChar_iff.mpr (hid.allowed c hc))
  rw [hline, read?_of_identifier hword (by decide),
    ofWord?_command _ _ hsubject, if_pos rfl, String.ofList_toList]

theorem number?_toString (n : Nat) : Statement.number? (toString n).toList = some n := by
  have hdigits : ∀ c ∈ Nat.toDigits 10 n, c.isDigit = true := fun c hc =>
    Nat.isDigit_of_mem_toDigits (by decide) (by decide) hc
  rw [Nat.toString_eq_ofList_toDigits, String.toList_ofList, Statement.number?,
    if_pos ⟨Nat.toDigits_ne_nil, List.all_eq_true.mpr hdigits⟩,
    Nat.ofDigitChars_toDigits (by decide) (by decide)]

theorem positions?_intercalate (hred : red ≠ []) :
    Statement.positions? (",".intercalate (red.map toString)).toList = some red := by
  have hcomma : ∀ digits ∈ red.map (String.toList ∘ toString), ',' ∉ digits := by
    intro digits hdigits hmem
    obtain ⟨n, -, rfl⟩ := List.mem_map.mp hdigits
    exact absurd (isIdChar_of_mem_toString hmem) (by decide)
  have hnumbers : Statement.number? ∘ String.toList ∘ toString = fun n : Nat => pure n :=
    funext number?_toString
  rw [Statement.positions?, String.toList_intercalate, List.map_map]
  change (([','].intercalate (red.map (String.toList ∘ toString))).splitOn ',').mapM _ = _
  rw [List.splitOn_intercalate ',' hcomma (by simpa using hred), List.mapM_map, hnumbers,
    List.mapM_pure, List.map_id']
  rfl

theorem forall_mem_positions {p : Char → Prop} (hdigit : ∀ c, isIdChar c = true → p c)
    (hcomma : p ',') :
    ∀ c ∈ (",".intercalate (red.map toString)).toList, p c := by
  rw [String.toList_intercalate]
  refine forall_mem_intercalate (by simpa using hcomma) ?_
  intro digits hdigits c hc
  obtain ⟨number, hnumber, rfl⟩ := List.mem_map.mp hdigits
  obtain ⟨n, -, rfl⟩ := List.mem_map.mp hnumber
  exact hdigit c (isIdChar_of_mem_toString hc)

theorem read?_linkStyleLine (hred : red ≠ []) :
    Statement.read? ("    linkStyle " ++ ",".intercalate (red.map toString) ++
      " stroke:#ff0000,stroke-width:2px").toList = some (.linkStyle red) := by
  have hline : ("    linkStyle " ++ ",".intercalate (red.map toString) ++
        " stroke:#ff0000,stroke-width:2px").toList =
      "    ".toList ++ "linkStyle".toList ++ ' ' ::
        ((",".intercalate (red.map toString)).toList ++ ' ' ::
          "stroke:#ff0000,stroke-width:2px".toList) := by
    simp
  have hword : Identifier "linkStyle" := identifier_of_chars rfl (by decide) (by decide)
  have hsubject : ∀ c ∈ (",".intercalate (red.map toString)).toList, c ≠ ' ' ∧ c ≠ '-' :=
    forall_mem_positions (fun c => not_blank_of_isIdChar) (by decide)
  rw [hline, read?_of_identifier hword (by decide), ofWord?_command _ _ hsubject,
    if_neg (by decide), if_pos rfl, positions?_intercalate hred, Option.map_some]

theorem newline_notMem (hid : Identifier id) : '\n' ∉ id.toList := fun hmem =>
  absurd (hid.allowed '\n' hmem) (by decide)

/-- A line of text that stays one line, and what it says. -/
structure Says (line : String) (said : Statement) : Prop where
  unbroken : '\n' ∉ line.toList
  read_eq : Statement.read? line.toList = some said

theorem says_node (hid : Identifier id) (hname : '\n' ∉ name.toList) :
    Says ("    " ++ id ++ "[\"" ++ name ++ "\"]") (.node id name) where
  unbroken := by simp [newline_notMem hid, hname]
  read_eq := read?_nodeLine hid name

theorem says_link (hsource : Identifier source) (htarget : Identifier target) :
    Says ("    " ++ source ++ " --> " ++ target) (.link source target) where
  unbroken := by simp [newline_notMem hsource, newline_notMem htarget]
  read_eq := read?_linkLine hsource target

theorem says_style (hid : Identifier id) :
    Says ("    style " ++ id ++ " stroke:#ff0000") (.style id) where
  unbroken := by simp [newline_notMem hid]
  read_eq := read?_styleLine hid

theorem says_linkStyle (hred : red ≠ []) :
    Says ("    linkStyle " ++ ",".intercalate (red.map toString) ++
      " stroke:#ff0000,stroke-width:2px") (.linkStyle red) where
  unbroken := by
    have hnumbers : ∀ c ∈ (",".intercalate (red.map toString)).toList, c ≠ '\n' :=
      forall_mem_positions (by rintro _ hallowed rfl; exact absurd hallowed (by decide)) (by decide)
    have hnone : '\n' ∉ (",".intercalate (red.map toString)).toList := fun hmem =>
      hnumbers '\n' hmem rfl
    simp only [String.toList_append, List.mem_append, hnone, or_false, not_or]
    decide
  read_eq := read?_linkStyleLine hred

theorem filterMap_says {α : Type} {write : α → String} {said : α → Statement} {items : List α}
    (hsaid : ∀ item ∈ items, Says (write item) (said item)) :
    ((items.map write).filterMap fun line => Statement.read? line.toList) = items.map said := by
  rw [List.filterMap_map, List.filterMap_eq_map_iff_forall_eq_some]
  exact fun item hitem => (hsaid item hitem).read_eq

/-- Lines that are joined by line breaks, and hold none themselves, are read one by one. -/
theorem statements_intercalate {header : String} {lines : List String}
    (hheader : '\n' ∉ header.toList) (hlines : ∀ line ∈ lines, '\n' ∉ line.toList) :
    statements ("\n".intercalate (header :: lines)) =
      lines.filterMap fun line => Statement.read? line.toList := by
  have hunbroken : ∀ line ∈ header :: lines, '\n' ∉ line.toList :=
    List.forall_mem_cons.mpr ⟨hheader, hlines⟩
  rw [statements, splitOn_intercalate_newline (List.cons_ne_nil _ _) hunbroken, List.map_cons,
    List.tail_cons, List.filterMap_map]
  rfl

end Lines

end Report

end ImportCycles
