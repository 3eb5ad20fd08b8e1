import ImportCycles.Proofs.Intercalate
import ImportCycles.Proofs.Json.Token

namespace ImportCycles

namespace Json

/-- All values of JSON. A number is kept as it is written, and members keep their order. -/
inductive Value where
  | null
  | bool (value : Bool)
  | number (lexeme : String)
  | string (value : String)
  | array (items : List Value)
  | object (members : List (String × Value))
  deriving Repr

/-- An array or object that is open, with the items or members before the one that is read. -/
inductive Frame where
  | array (items : List Value)
  | object (members : List (String × Value)) (key : String)

/-- What comes next, with the arrays and objects that are open, innermost first. -/
inductive State where
  | beforeValue (stack : List Frame)
  | beforeFirstItem (stack : List Frame)
  | beforeFirstKey (stack : List Frame)
  | beforeKey (members : List (String × Value)) (stack : List Frame)
  | beforeColon (members : List (String × Value)) (key : String) (stack : List Frame)
  | afterValue (value : Value) (stack : List Frame)

namespace State

/-- A value starts. -/
def start (stack : List Frame) : Token → Option State
  | .null => some (.afterValue .null stack)
  | .bool value => some (.afterValue (.bool value) stack)
  | .number lexeme => some (.afterValue (.number lexeme) stack)
  | .string value => some (.afterValue (.string value) stack)
  | .openArray => some (.beforeFirstItem stack)
  | .openObject => some (.beforeFirstKey stack)
  | _ => none

def step : State → Token → Option State
  | .beforeValue stack, token => start stack token
  | .beforeFirstItem stack, .closeArray => some (.afterValue (.array []) stack)
  | .beforeFirstItem stack, token => start (.array [] :: stack) token
  | .beforeFirstKey stack, .closeObject => some (.afterValue (.object []) stack)
  | .beforeFirstKey stack, .string key => some (.beforeColon [] key stack)
  | .beforeKey members stack, .string key => some (.beforeColon members key stack)
  | .beforeColon members key stack, .colon => some (.beforeValue (.object members key :: stack))
  | .afterValue value (.array items :: stack), .comma =>
    some (.beforeValue (.array (items ++ [value]) :: stack))
  | .afterValue value (.array items :: stack), .closeArray =>
    some (.afterValue (.array (items ++ [value])) stack)
  | .afterValue value (.object members key :: stack), .comma =>
    some (.beforeKey (members ++ [(key, value)]) stack)
  | .afterValue value (.object members key :: stack), .closeObject =>
    some (.afterValue (.object (members ++ [(key, value)])) stack)
  | _, _ => none

def run (state : State) (tokens : List Token) : Option State :=
  tokens.foldlM step state

end State

/-- The value of a JSON text: one value, with nothing but blanks around it. -/
def decode (text : String) : Option Value :=
  match (tokens? text.toList).bind (State.run (.beforeValue [])) with
  | some (.afterValue value []) => some value
  | _ => none

theorem sizeOf_member_lt {α : Type} [SizeOf α] {members : List (String × α)}
    {member : String × α} (hmember : member ∈ members) : sizeOf member.2 < sizeOf members := by
  have hlt := List.sizeOf_lt_of_mem hmember
  have hparts : sizeOf member = 1 + sizeOf member.1 + sizeOf member.2 := rfl
  omega

/-- The tokens of a value. -/
def Value.tokens : Value → List Token
  | .null => [.null]
  | .bool value => [.bool value]
  | .number lexeme => [.number lexeme]
  | .string value => [.string value]
  | .array items => .openArray :: [.comma].intercalate (items.map tokens) ++ [.closeArray]
  | .object members =>
    .openObject :: [.comma].intercalate
      (members.map fun member => .string member.1 :: .colon :: tokens member.2) ++ [.closeObject]
termination_by value => value
decreasing_by
  · rename_i item hitem
    have := List.sizeOf_lt_of_mem hitem
    simp_wf
    omega
  · rename_i hmember
    have := sizeOf_member_lt hmember
    simp_wf
    omega

def memberTokens (member : String × Value) : List Token :=
  .string member.1 :: .colon :: member.2.tokens

theorem tokens_object (members : List (String × Value)) :
    (Value.object members).tokens =
      .openObject :: [.comma].intercalate (members.map memberTokens) ++ [.closeObject] := by
  rw [Value.tokens]
  rfl

/-- The tokens that lead into an open array or object. -/
def Frame.past : Frame → List Token
  | .array items => .openArray :: items.flatMap fun item => item.tokens ++ [.comma]
  | .object members key =>
    .openObject :: members.flatMap (fun member => memberTokens member ++ [.comma]) ++
      [.string key, .colon]

namespace State

variable {stack : List Frame}

theorem run_append (state : State) (tokens more : List Token) :
    run state (tokens ++ more) = (run state tokens).bind fun next => run next more :=
  List.foldlM_append

theorem run_cons {state next : State} {token : Token} (hstep : step state token = some next)
    (tokens : List Token) : run state (token :: tokens) = run next tokens := by
  rw [run, List.foldlM_cons, hstep]
  rfl

/-- A value that the machine delivers, from wherever a value is due. -/
def Delivers (value : Value) : Prop :=
  ∀ stack, run (.beforeValue stack) value.tokens = some (.afterValue value stack)

/-- Parts with commas between them and a closing bracket. Each part leads on from the parts before
    it, and the comma to the next one. -/
theorem run_sequence {α : Type} (enter final : List α → State) {leave : List α → α → State}
    {write : α → List Token} {close : Token} {parts : List α}
    (hpart : ∀ part ∈ parts, ∀ earlier,
      run (enter earlier) (write part) = some (leave earlier part))
    (hcomma : ∀ earlier part, step (leave earlier part) .comma = some (enter (earlier ++ [part])))
    (hclose : ∀ earlier part, step (leave earlier part) close = some (final (earlier ++ [part])))
    (hne : parts ≠ []) (earlier : List α) :
    run (enter earlier) ([.comma].intercalate (parts.map write) ++ [close]) =
      some (final (earlier ++ parts)) := by
  induction parts generalizing earlier with
  | nil => exact absurd rfl hne
  | cons first rest ih =>
    obtain ⟨hfirst, hrest⟩ := List.forall_mem_cons.mp hpart
    cases rest with
    | nil =>
      rw [List.map_singleton, List.intercalate_singleton, run_append, hfirst, Option.bind_some,
        run_cons (hclose earlier first)]
      rfl
    | cons second others =>
      rw [List.map_cons, List.map_cons, List.intercalate_cons_cons, ← List.map_cons,
        List.append_assoc, List.append_assoc, List.singleton_append, run_append, hfirst,
        Option.bind_some, run_cons (hcomma earlier first), ih hrest (by simp), List.append_assoc,
        List.singleton_append]

/-- No value starts with a closing bracket, so any value may be the first item. -/
theorem run_beforeFirstItem (value : Value) (more : List Token) :
    run (.beforeFirstItem stack) (value.tokens ++ more) =
      run (.beforeValue (.array [] :: stack)) (value.tokens ++ more) := by
  cases value <;> rw [Value.tokens] <;> rfl

theorem delivers_array {items : List Value} (hitems : ∀ item ∈ items, Delivers item) :
    Delivers (.array items) := by
  intro stack
  rw [Value.tokens, List.cons_append, run_cons rfl]
  cases items with
  | nil => rfl
  | cons first rest =>
    obtain ⟨more, hmore⟩ := exists_intercalate_cons [.comma] first.tokens (rest.map Value.tokens)
    rw [List.map_cons, hmore, List.append_assoc, run_beforeFirstItem, ← List.append_assoc, ← hmore]
    exact run_sequence (fun earlier => .beforeValue (.array earlier :: stack))
      (fun all => .afterValue (.array all) stack) (fun item hitem earlier => hitems item hitem _)
      (fun _ _ => rfl) (fun _ _ => rfl) (by simp) []

theorem run_memberTokens {member : String × Value} (hmember : Delivers member.2)
    (earlier : List (String × Value)) :
    run (.beforeKey earlier stack) (memberTokens member) =
      some (.afterValue member.2 (.object earlier member.1 :: stack)) := by
  rw [memberTokens, run_cons rfl, run_cons rfl, hmember]

/-- The first key is read as any other, but for the bracket that may stand in its place. -/
theorem run_beforeFirstKey (member : String × Value) (more : List Token) :
    run (.beforeFirstKey stack) (memberTokens member ++ more) =
      run (.beforeKey [] stack) (memberTokens member ++ more) :=
  rfl

theorem delivers_object {members : List (String × Value)}
    (hmembers : ∀ member ∈ members, Delivers member.2) : Delivers (.object members) := by
  intro stack
  rw [tokens_object, List.cons_append, run_cons rfl]
  cases members with
  | nil => rfl
  | cons first rest =>
    obtain ⟨more, hmore⟩ :=
      exists_intercalate_cons [.comma] (memberTokens first) (rest.map memberTokens)
    rw [List.map_cons, hmore, List.append_assoc, run_beforeFirstKey, ← List.append_assoc, ← hmore]
    exact run_sequence (fun earlier => .beforeKey earlier stack)
      (fun all => .afterValue (.object all) stack)
      (fun member hmember earlier => run_memberTokens (hmembers member hmember) earlier)
      (fun _ _ => rfl) (fun _ _ => rfl) (by simp) []

/-- The machine delivers every value. -/
theorem delivers (value : Value) : Delivers value := by
  induction value using Value.tokens.induct with
  | case1 | case2 | case3 | case4 =>
    intro stack
    rw [Value.tokens]
    rfl
  | case5 items ih => exact delivers_array ih
  | case6 members ih => exact delivers_object ih

/-- All tokens that lead to a state. -/
def past : State → List Token
  | .beforeValue stack => stack.reverse.flatMap Frame.past
  | .beforeFirstItem stack => stack.reverse.flatMap Frame.past ++ [.openArray]
  | .beforeFirstKey stack => stack.reverse.flatMap Frame.past ++ [.openObject]
  | .beforeKey members stack =>
    stack.reverse.flatMap Frame.past ++
      .openObject :: members.flatMap fun member => memberTokens member ++ [.comma]
  | .beforeColon members key stack =>
    stack.reverse.flatMap Frame.past ++
      .openObject :: members.flatMap (fun member => memberTokens member ++ [.comma]) ++
        [.string key]
  | .afterValue value stack => stack.reverse.flatMap Frame.past ++ value.tokens

theorem past_start {next : State} {token : Token} (hstart : start stack token = some next) :
    next.past = stack.reverse.flatMap Frame.past ++ [token] := by
  cases token <;> cases hstart <;> simp only [past, Value.tokens]

theorem past_step {state next : State} {token : Token} (hstep : step state token = some next) :
    next.past = state.past ++ [token] := by
  unfold step at hstep
  split at hstep
  case h_1 => exact past_start hstep
  case h_3 =>
    rw [past_start hstep]
    simp [past, Frame.past]
  case h_9 | h_11 =>
    -- the array or object is complete, and its tokens are those read since it was opened
    cases hstep
    simp [past, Frame.past, Value.tokens, tokens_object, memberTokens, intercalate_concat,
      List.flatMap_map]
  case h_12 => cases hstep
  all_goals
    cases hstep
    simp [past, Frame.past, memberTokens, Value.tokens]

theorem past_run {state next : State} {tokens : List Token} (hrun : run state tokens = some next) :
    next.past = state.past ++ tokens := by
  induction tokens generalizing state with
  | nil =>
    cases hrun
    rw [List.append_nil]
  | cons token rest ih =>
    rw [run, List.foldlM_cons] at hrun
    obtain ⟨middle, hstep, hrest⟩ := Option.bind_eq_some_iff.mp hrun
    rw [ih hrest, past_step hstep, List.append_assoc, List.singleton_append]

end State

/-- A text decodes as a value if and only if its tokens are those of the value. -/
theorem decode_eq_some_iff {text : String} {value : Value} :
    decode text = some value ↔ tokens? text.toList = some value.tokens := by
  rw [decode]
  constructor
  · intro hdecode
    split at hdecode
    case h_2 => cases hdecode
    case h_1 hrun =>
      cases hdecode
      obtain ⟨tokens, htokens, hrun⟩ := Option.bind_eq_some_iff.mp hrun
      have hpast := State.past_run hrun
      simp only [State.past, List.reverse_nil, List.flatMap_nil, List.nil_append] at hpast
      rw [htokens, hpast]
  · intro htokens
    rw [htokens, Option.bind_some, State.delivers]

/-- Numbers, escapes and blanks that the reports here do not make. -/
example : decode "[null, -1.5e+3,\t\x7b \"\\ud83d\\uDE00\\/\" :\n[ ]\x7d]" =
    some (.array [.null, .number "-1.5e+3", .object [("😀/", .array [])]]) := by
  cbv

/-- A comma must lead to an item. -/
example : decode "[0,]" = none := by
  cbv

end Json

end ImportCycles
