import ImportCycles.Proofs.Json.Decode

namespace ImportCycles

namespace Json

/-- A written value among all values of JSON. -/
def toValue : Json → Value
  | .bool b => .bool b
  | .string s => .string s
  | .array items => .array (items.map toValue)
  | .object members => .object (members.map fun member => (member.1, toValue member.2))
termination_by json => json
decreasing_by
  · rename_i hitem
    have := List.sizeOf_lt_of_mem hitem
    simp_wf
    omega
  · rename_i hmember
    have := sizeOf_member_lt hmember
    simp_wf
    omega

variable (layout : Layout) (depth : Nat)

theorem writeItems_eq_map (items : List Json) :
    writeItems layout depth items = items.map (write layout depth) := by
  induction items with
  | nil => rfl
  | cons item rest ih => rw [writeItems, ih, List.map_cons]

def writeMember (member : String × Json) : List Char :=
  quoted member.1 ++ [':', ' '] ++ write layout depth member.2

theorem writeMembers_eq_map (members : List (String × Json)) :
    writeMembers layout depth members = members.map (writeMember layout depth) := by
  induction members with
  | nil => rfl
  | cons member rest ih =>
    rw [writeMembers, ih, List.map_cons]
    rfl

theorem mem_lineBreak {c : Char} (hc : c ∈ layout.lineBreak depth) : c = '\n' ∨ c = ' ' := by
  cases layout with
  | line => cases hc
  | lines width => exact (List.mem_cons.mp hc).imp id List.eq_of_mem_replicate

theorem lexes_lineBreak : Lexes (layout.lineBreak depth) [] := by
  refine lexes_blanks fun c hc => ?_
  rcases mem_lineBreak layout depth hc with rfl | rfl <;> decide

theorem lexes_comma : Lexes [','] [.comma] :=
  lexes_token (by decide) fun _ => rfl

theorem lexes_colon : Lexes [':'] [.colon] :=
  lexes_token (by decide) fun _ => rfl

theorem lexes_blank : Lexes [' '] [] :=
  lexes_blanks (List.forall_mem_singleton.mpr rfl)

theorem lexes_separator : Lexes (layout.separator depth) [.comma] := by
  cases layout with
  | line => exact lexes_comma.append lexes_blank
  | lines width => exact lexes_comma.append (lexes_lineBreak (.lines width) depth)

variable {layout depth}

theorem lexes_enclose {α : Type} {text : α → List Char} {found : α → List Token} {items : List α}
    {opening closing : Char} {first last : Token} (hopening : Lexes [opening] [first])
    (hclosing : Lexes [closing] [last]) (hitems : ∀ item ∈ items, Lexes (text item) (found item)) :
    Lexes (enclose layout depth opening closing (items.map text))
      (first :: [.comma].intercalate (items.map found) ++ [last]) := by
  cases items with
  | nil => exact hopening.append hclosing
  | cons item rest =>
    have hall := Lexes.intercalate (lexes_separator layout (depth + 1)) hitems
    have hlines := (((hopening.append (lexes_lineBreak layout (depth + 1))).append hall).append
      (lexes_lineBreak layout depth)).append hclosing
    rw [List.append_nil, List.append_nil] at hlines
    exact hlines

/-- Whatever the layout, the text of a value stands for the tokens of the value. -/
theorem lexes_write (json : Json) (depth : Nat) :
    Lexes (write layout depth json) json.toValue.tokens := by
  induction json using toValue.induct generalizing depth with
  | case1 b =>
    rw [toValue, Value.tokens]
    cases b <;> exact lexes_token (by decide) fun _ => rfl
  | case2 s =>
    rw [toValue, Value.tokens]
    exact lexes_quoted s
  | case3 items ih =>
    rw [toValue, Value.tokens, write, writeItems_eq_map, List.map_map]
    exact lexes_enclose (lexes_token (by decide) fun _ => rfl)
      (lexes_token (by decide) fun _ => rfl) fun item hitem => ih item hitem (depth + 1)
  | case4 members ih =>
    have hmember : ∀ member ∈ members, Lexes (writeMember layout (depth + 1) member)
        (memberTokens (member.1, member.2.toValue)) := by
      intro member hmember
      have hkey := (lexes_quoted member.1).append (lexes_colon.append lexes_blank)
      exact hkey.append (ih member hmember (depth + 1))
    rw [toValue, tokens_object, write, writeMembers_eq_map, List.map_map]
    exact lexes_enclose (lexes_token (by decide) fun _ => rfl)
      (lexes_token (by decide) fun _ => rfl) hmember

/-- Every written value decodes as itself, at every layout. -/
theorem decode_render (layout : Layout) (json : Json) :
    decode (render layout json) = some json.toValue := by
  rw [decode_eq_some_iff, render, String.toList_ofList]
  exact (lexes_write json 0).tokens?_eq

theorem isAscii_lineBreak (layout : Layout) (depth : Nat) : IsAscii (layout.lineBreak depth) := by
  intro c hc
  rcases mem_lineBreak layout depth hc with rfl | rfl <;> decide

theorem isAscii_separator (layout : Layout) (depth : Nat) : IsAscii (layout.separator depth) := by
  cases layout with
  | line => exact (by decide : IsAscii [',', ' '])
  | lines width => exact List.forall_mem_cons.mpr ⟨by decide, isAscii_lineBreak _ depth⟩

theorem isAscii_enclose {opening closing : Char} {items : List (List Char)}
    (hbrackets : IsAscii [opening, closing]) (hitems : ∀ item ∈ items, IsAscii item) :
    IsAscii (enclose layout depth opening closing items) := by
  obtain ⟨hopening, hclosing⟩ := List.forall_mem_cons.mp hbrackets
  have hall := forall_mem_intercalate (isAscii_separator layout (depth + 1)) hitems
  have hbreak := isAscii_lineBreak layout
  rw [enclose]
  split
  · exact hbrackets
  · exact List.forall_mem_cons.mpr
      ⟨hopening, (((hbreak (depth + 1)).append hall).append (hbreak depth)).append hclosing⟩

theorem isAscii_write (json : Json) (depth : Nat) : IsAscii (write layout depth json) := by
  induction json using toValue.induct generalizing depth with
  | case1 b => cases b <;> rw [write] <;> decide
  | case2 s => exact isAscii_quoted s
  | case3 items ih =>
    rw [write, writeItems_eq_map]
    exact isAscii_enclose (by decide)
      (List.forall_mem_map.mpr fun item hitem => ih item hitem (depth + 1))
  | case4 members ih =>
    rw [write, writeMembers_eq_map]
    refine isAscii_enclose (by decide) (List.forall_mem_map.mpr fun member hmember => ?_)
    have hkey : IsAscii (quoted member.1 ++ [':', ' ']) :=
      (isAscii_quoted member.1).append (by decide)
    exact hkey.append (ih member hmember (depth + 1))

end Json

end ImportCycles
